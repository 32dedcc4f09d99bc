import ItchParser.Engine.Runs
import ItchParser.Lib.FreeRunning

/-!
# When the order index needs its overflow map

The array of the index has a slot for the low 25 bits of an id. The engine report prints how many
orders are in the overflow map and how often an order had to go there. The second number stays 0
exactly as long as no two orders are live at one time whose ids have the same low bits, and it
bounds the first. An order that is in the overflow map stays there when its slot gets free.
-/

namespace ItchParser

open Machine

namespace DirectOrderIndex

/-- An order is in the overflow map, and another one has its slot. -/
def Crowded (ix : DirectOrderIndex) : Prop :=
  ∃ id p o, ix.slots (slotOf id) = some p ∧ ix.overflow.lookup id = some o

/-- No order has gone to the overflow map. -/
structure Keeps (ix ix' : DirectOrderIndex) : Prop where
  collisions : ix'.collisions = ix.collisions
  overflow : ix'.overflowSize ≤ ix.overflowSize

/-- One order has gone to the overflow map. -/
structure Spills (ix ix' : DirectOrderIndex) : Prop where
  collisions : ix'.collisions = ix.collisions + 1
  overflow : ix'.overflowSize ≤ ix.overflowSize + 1
  crowded : ix'.Crowded

/-- What the engine does to the index with one call. -/
def Moves (ix ix' : DirectOrderIndex) : Prop :=
  ix.Keeps ix' ∨ ix.Spills ix'

variable {ix ix' ix'' : DirectOrderIndex} {orders : Ptr → Order} {live : List Ptr}
  {id id' : OrderReferenceNumber} {o p q : Ptr}

/-- Nothing has happened. -/
theorem Keeps.refl (ix : DirectOrderIndex) : ix.Keeps ix :=
  ⟨rfl, Nat.le_refl _⟩

/-- Two parts without overflow. -/
theorem Keeps.trans (h : ix.Keeps ix') (h' : ix'.Keeps ix'') : ix.Keeps ix'' :=
  ⟨h'.collisions.trans h.collisions, h'.overflow.trans h.overflow⟩

/-- A part without overflow, and then one order. -/
theorem Keeps.moves (h : ix.Keeps ix') (h' : ix'.Moves ix'') : ix.Moves ix'' := by
  rcases h' with h' | h'
  · exact .inl (h.trans h')
  · have hoverflow := h.overflow
    have hoverflow' := h'.overflow
    exact .inr ⟨by rw [h'.collisions, h.collisions], by omega, h'.crowded⟩

/-- `erase` sends no order to the overflow map. -/
theorem keeps_erase (ix : DirectOrderIndex) (orders : Ptr → Order) (id : OrderReferenceNumber) :
    ix.Keeps (ix.erase orders id).1 := by
  have hoverflow : ix.Keeps (ix.eraseOverflow id).1 := by
    unfold eraseOverflow
    split
    · exact ⟨rfl, (List.kerase_sublist id ix.overflow.entries).length_le⟩
    · exact .refl ix
  unfold erase
  split
  · split
    · exact ⟨rfl, Nat.le_refl _⟩
    · exact hoverflow
  · exact hoverflow

/-- `insert` sends an order to the overflow map when its slot is taken. -/
theorem moves_insert (ix : DirectOrderIndex) (orders : Ptr → Order) (id : OrderReferenceNumber)
    (o : Ptr) : ix.Moves (ix.insert orders id o).1 := by
  unfold insert
  cases hslot : ix.slots (slotOf id) with
  | none => exact .inl ⟨rfl, Nat.le_refl _⟩
  | some p =>
      simp only
      split
      · exact .inl (.refl ix)
      · split
        · exact .inl (.refl ix)
        · refine .inr ⟨rfl, ?_, id, p, o, hslot, AList.lookup_insert _⟩
          show (ix.overflow.insert id o).entries.length ≤ _
          rw [AList.entries_insert, List.length_cons]
          exact Nat.succ_le_succ (List.kerase_sublist id ix.overflow.entries).length_le

/-! ## The ids of the indexed orders -/

/-- Without overflow every order has a slot of its own. -/
theorem Represents.slot_inj (h : ix.Represents orders live) (hoverflow : ix.overflowSize = 0)
    (hp : p ∈ live) (hq : q ∈ live)
    (hslot : slotOf (orders p).orderId = slotOf (orders q).orderId) : p = q := by
  have hempty : ∀ id, ix.overflow.lookup id = none := by
    intro id
    unfold AList.lookup
    rw [List.eq_nil_of_length_eq_zero hoverflow]
    rfl
  have hslots : ∀ r ∈ live, ix.slots (slotOf (orders r).orderId) = some r := fun r hr =>
    (h.complete r hr).resolve_right (by rw [hempty]; nofun)
  have hsame := hslots p hp
  rw [hslot, hslots q hq] at hsame
  exact (Option.some.inj hsame).symm

/-- A crowded index has two orders for one slot. -/
theorem Represents.crowded (h : ix.Represents orders live) (hcrowded : ix.Crowded) :
    ∃ p ∈ live, ∃ q ∈ live, slotOf (orders p).orderId = slotOf (orders q).orderId ∧
      (orders p).orderId ≠ (orders q).orderId := by
  obtain ⟨id, p, o, hp, ho⟩ := hcrowded
  obtain ⟨hpmem, hpslot⟩ := h.slot_sound _ p hp
  obtain ⟨homem, hoid⟩ := h.overflow_sound id o ho
  refine ⟨p, hpmem, o, homem, by rw [hpslot, hoid], fun hid => ?_⟩
  -- an order with a slot is not in the overflow map
  have hnone := h.exclusive p (by rw [hpslot]; exact hp)
  rw [hid, hoid, ho] at hnone
  cases hnone

/-- Ids less than the size of the array apart have different slots. -/
theorem slotOf_ne (hlt : id.toNat < id'.toNat) (hclose : id'.toNat < id.toNat + 33554432) :
    slotOf id ≠ slotOf id' := by
  have hcapacity : kCapacity.toNat = 2 ^ 25 := rfl
  have hne := FreeRunning.slot_ne hcapacity hlt hclose
  rwa [UInt64.ofNat_toNat, UInt64.ofNat_toNat] at hne

end DirectOrderIndex

namespace MatchingEngine

open DirectOrderIndex

variable {e : MatchingEngine} {caps : Capacities} {m : Market} {ix : DirectOrderIndex}
  {id : OrderReferenceNumber} {locate : StockLocate} {rollback accept : EngineStats → EngineStats}

/-! ## What the handlers do to the index -/

@[simp] theorem count_orderIndex (f : EngineStats → EngineStats) :
    (e.count f).orderIndex = e.orderIndex := rfl

@[simp] theorem putBook_orderIndex (locate : StockLocate) (st : BookState) :
    (e.putBook locate st).orderIndex = e.orderIndex := rfl

@[simp] theorem releaseOrder_orderIndex (o : Ptr) :
    (e.releaseOrder o).orderIndex = e.orderIndex := rfl

@[simp] theorem constructOrder_orderIndex (mem : Ptr) (order : Order) :
    (e.constructOrder mem order).orderIndex = e.orderIndex := rfl

/-- Taking an order out of the index spills none. -/
theorem keeps_eraseOrder (h : ix.Keeps e.orderIndex) (id : OrderReferenceNumber) :
    ix.Keeps (e.eraseOrder id).orderIndex :=
  h.trans (keeps_erase e.orderIndex e.orders id)

/-- Indexing an order spills it or not. -/
theorem moves_indexAdded (h : ix.Keeps e.orderIndex) (o : Ptr) (book : OrderBook) :
    ix.Moves (e.indexAdded locate id o book rollback accept).orderIndex := by
  have hinsert := moves_insert e.orderIndex e.orders id o
  unfold indexAdded
  split
  · simpa using .inl h
  · next index hindex =>
      rw [hindex] at hinsert
      exact h.moves hinsert

/-- Placing an order spills it or not. -/
theorem moves_placeOrder (h : ix.Keeps e.orderIndex) (o : Ptr) (book : OrderBook) :
    ix.Moves (e.placeOrder locate id o book rollback accept).orderIndex := by
  unfold placeOrder
  simp only
  split
  · simpa using .inl h
  · exact moves_indexAdded (by simpa using h) o _

/-- A and F spill an order or not. -/
theorem moves_onAddOrder {bsi : BuySellIndicator} {qty : Shares} {px : Price} {ts : Timestamp}
    {mpid : MPID} {attributed : Bool} : e.orderIndex.Moves
      (e.onAddOrder locate id bsi qty px ts mpid attributed).orderIndex := by
  unfold onAddOrder
  split
  · exact .inl (.refl _)
  · simp only
    split
    · exact .inl (.refl _)
    · next mem pool hacquire =>
        refine moves_placeOrder ?_ mem _
        exact .refl _

/-- E, C and X spill no order. -/
theorem keeps_reduceOrder (method : BookState → Ptr → Int × BookState) :
    e.orderIndex.Keeps (e.reduceOrder locate id method accept).orderIndex := by
  unfold reduceOrder
  split
  · exact .refl _
  · simp only
    split
    · exact .refl _
    · split
      · exact .refl _
      · split
        · rw [count_orderIndex, releaseOrder_orderIndex]
          refine keeps_eraseOrder ?_ id
          exact .refl _
        · exact .refl _

/-- D spills no order. -/
theorem keeps_onOrderDelete : e.orderIndex.Keeps (e.onOrderDelete locate id).orderIndex := by
  unfold onOrderDelete
  split
  · exact .refl _
  · simp only
    split
    · exact .refl _
    · split
      · exact .refl _
      · rw [count_orderIndex, releaseOrder_orderIndex]
        refine keeps_eraseOrder ?_ id
        exact .refl _

/-- The old order leaves the index before the new one enters it. -/
theorem moves_replaceOrder {oldId newId : OrderReferenceNumber} {newQty : Shares} {newPx : Price}
    {ts : Timestamp} (h : ix.Keeps e.orderIndex) (old mem : Ptr) (book : OrderBook) :
    ix.Moves (e.replaceOrder locate oldId newId newQty newPx ts old mem book).orderIndex := by
  unfold replaceOrder
  simp only
  split
  · simpa using .inl h
  · refine moves_placeOrder ?_ mem _
    rw [constructOrder_orderIndex, count_orderIndex, releaseOrder_orderIndex]
    exact keeps_eraseOrder (by simpa using h) oldId

/-- U spills the new order or not. -/
theorem moves_onOrderReplace {oldId newId : OrderReferenceNumber} {newQty : Shares}
    {newPx : Price} {ts : Timestamp} : e.orderIndex.Moves
      (e.onOrderReplace locate oldId newId newQty newPx ts).orderIndex := by
  unfold onOrderReplace
  split
  · exact .inl (.refl _)
  · simp only
    split
    · exact .inl (.refl _)
    · split
      · exact .inl (.refl _)
      · split
        · exact .inl (.refl _)
        · next mem pool hacquire =>
            refine moves_replaceOrder ?_ _ mem _
            exact .refl _

/-- Releasing orders spills none. -/
theorem keeps_releaseSnapshot (h : ix.Keeps e.orderIndex) (snapshot : List Ptr) :
    ix.Keeps (e.releaseSnapshot snapshot).orderIndex := by
  unfold releaseSnapshot
  induction snapshot generalizing e with
  | nil => exact h
  | cons o snapshot ih => exact ih (keeps_eraseOrder h (e.orders o).orderId)

/-- Q spills no order. -/
theorem keeps_onCrossTrade {xtype : CrossType} :
    e.orderIndex.Keeps (e.onCrossTrade locate xtype).orderIndex := by
  unfold onCrossTrade
  simp only
  split
  · exact .refl _
  · split
    · exact .refl _
    · next book hbook =>
        unfold closeBook
        rw [putBook_orderIndex, count_orderIndex]
        refine keeps_releaseSnapshot ?_ _
        exact .refl _

/-- Every call spills at most one order. -/
theorem moves_step (e : MatchingEngine) (c : Call) :
    e.orderIndex.Moves (e.step c).orderIndex := by
  cases c with
  | stockDirectory locate symbol mc fsi rls rlo auth ssti ipo luld etp elf inv =>
      simp only [step, onStockDirectory]
      split <;> exact .inl (.refl _)
  | tradingAction locate state symbol reason =>
      simp only [step, onTradingAction]
      split <;> exact .inl (.refl _)
  | regSho locate action =>
      simp only [step, onRegSho]
      split <;> exact .inl (.refl _)
  | addOrder locate id bsi qty px ts mpid attributed => exact moves_onAddOrder
  | orderExecuted locate id execQty matchNo => exact .inl (keeps_reduceOrder _)
  | orderExecutedWithPrice locate id execQty matchNo printable execPx =>
      exact .inl (keeps_reduceOrder _)
  | orderCancel locate id cancelledQty => exact .inl (keeps_reduceOrder _)
  | orderDelete locate id => exact .inl keeps_onOrderDelete
  | orderReplace locate oldId newId newQty newPx ts => exact moves_onOrderReplace
  | nonCrossTrade _ _ _ _ => exact .inl (.refl _)
  | crossTrade locate xtype => exact .inl keeps_onCrossTrade
  | brokenTrade _ _ => exact .inl (.refl _)

/-! ## Runs -/

/-- No two live orders have the same slot. -/
def SlotsApart (e : MatchingEngine) : Prop :=
  ∀ id id', (e.orderOf id).isSome → (e.orderOf id').isSome → slotOf id = slotOf id' → id = id'

/-- The live orders have ids less than the size of the array apart. -/
def Narrow (e : MatchingEngine) : Prop :=
  ∀ id id', (e.orderOf id).isSome → (e.orderOf id').isSome →
    id'.toNat < id.toNat + kCapacity.toNat

/-- Ids less than the size of the array apart have slots of their own. -/
theorem Narrow.slotsApart (h : e.Narrow) : e.SlotsApart := by
  intro id id' hid hid' hslot
  rcases Nat.lt_trichotomy id.toNat id'.toNat with hlt | heq | hlt
  · exact absurd hslot (slotOf_ne hlt (h id id' hid hid'))
  · exact UInt64.toNat_inj.mp heq
  · exact absurd hslot.symm (slotOf_ne hlt (h id' id hid' hid))

/-- An id is live when an indexed order has it. -/
theorem isSome_orderOf {live : List Ptr} (h : e.orderIndex.Represents e.orders live)
    (id : OrderReferenceNumber) :
    (e.orderOf id).isSome ↔ ∃ p ∈ live, (e.orders p).orderId = id := by
  rw [orderOf, Option.isSome_map, findOrder, Option.isSome_iff_exists]
  simp only [h.find_some]

/-- Without overflow the live orders have slots of their own. -/
theorem Refines.slotsApart (h : e.Refines caps m) (hoverflow : e.orderIndex.overflowSize = 0) :
    e.SlotsApart := by
  obtain ⟨arrival, _, _, _, h⟩ := h
  intro id id' hid hid' hslot
  obtain ⟨p, hp, rfl⟩ := (isSome_orderOf h.index id).mp hid
  obtain ⟨q, hq, rfl⟩ := (isSome_orderOf h.index id').mp hid'
  rw [h.index.slot_inj hoverflow hp hq hslot]

/-- A crowded index has two live orders for one slot. -/
theorem Refines.not_slotsApart (h : e.Refines caps m) (hcrowded : e.orderIndex.Crowded) :
    ¬ e.SlotsApart := by
  obtain ⟨arrival, _, _, _, h⟩ := h
  obtain ⟨p, hp, q, hq, hslot, hne⟩ := h.index.crowded hcrowded
  exact fun hapart => hne (hapart _ _ ((isSome_orderOf h.index _).mpr ⟨p, hp, rfl⟩)
    ((isSome_orderOf h.index _).mpr ⟨q, hq, rfl⟩) hslot)

/-- One more call: the first collision comes with the first two live orders for one slot. -/
theorem Refines.collisions_step {e' : MatchingEngine} (h : e'.Refines caps m)
    (hmoves : e.orderIndex.Moves e'.orderIndex)
    (hle : e.orderIndex.overflowSize ≤ e.orderIndex.collisions) :
    e'.orderIndex.overflowSize ≤ e'.orderIndex.collisions ∧
      (e'.orderIndex.collisions = 0 ↔ e.orderIndex.collisions = 0 ∧ e'.SlotsApart) := by
  rcases hmoves with hkeeps | hspills
  · have hoverflow := hkeeps.overflow
    rw [hkeeps.collisions]
    refine ⟨by omega, fun hzero => ⟨hzero, ?_⟩, And.left⟩
    -- without a collision so far the overflow map is still empty
    exact h.slotsApart (by omega)
  · have hoverflow := hspills.overflow
    rw [hspills.collisions]
    refine ⟨by omega, iff_of_false (by omega) fun hboth => ?_⟩
    exact h.not_slotsApart hspills.crowded hboth.2

/-- The first collision of a run, and the bound on the overflow map. -/
theorem slotsApart_after (oc lc : UInt64) (cs : List Call) (hcap : oc.toNat < 4294967296)
    (hroomy : ∀ pre, pre <+: cs → (after oc lc pre).Roomy) :
    (after oc lc cs).orderIndex.overflowSize ≤ (after oc lc cs).orderIndex.collisions ∧
      ((after oc lc cs).orderIndex.collisions = 0 ↔
        ∀ pre, pre <+: cs → (after oc lc pre).SlotsApart) := by
  have hrefines := fun pre (hpre : pre <+: cs) =>
    after_refines oc lc pre hcap fun p hp => hroomy p (hp.trans hpre)
  refine prefix_induction (P := fun cs =>
      (after oc lc cs).orderIndex.overflowSize ≤ (after oc lc cs).orderIndex.collisions ∧
        ((after oc lc cs).orderIndex.collisions = 0 ↔
          ∀ pre, pre <+: cs → (after oc lc pre).SlotsApart)) cs
    ⟨Nat.le_refl _, iff_of_true rfl fun pre hpre => ?_⟩ fun pre c hpre ⟨hle, ih⟩ => ?_
  · rw [List.prefix_nil.mp hpre]
    exact (hrefines [] List.nil_prefix).slotsApart rfl
  · have hmoves : (after oc lc pre).orderIndex.Moves (after oc lc (pre ++ [c])).orderIndex := by
      rw [after, after, run_concat]
      exact moves_step _ c
    obtain ⟨hle', hzero⟩ := (hrefines (pre ++ [c]) hpre).collisions_step hmoves hle
    refine ⟨hle', hzero.trans ?_⟩
    rw [show (run step (create oc lc) pre).orderIndex.collisions = 0 ↔ _ from ih]
    simp only [List.prefix_concat_iff, forall_eq_or_imp, and_comm]

/-- A run has no collision exactly when at no time two live orders have the same slot, as when their
ids are always less than 2^25 apart. The overflow map never holds more orders than there were
collisions. -/
theorem collisions_after (oc lc : UInt64) (cs : List Call) (hcap : oc.toNat < 4294967296)
    (hroomy : ∀ pre, pre <+: cs → (after oc lc pre).Roomy) :
    ((after oc lc cs).orderIndex.collisions = 0 ↔
        ∀ pre, pre <+: cs → (after oc lc pre).SlotsApart) ∧
      (after oc lc cs).orderIndex.overflowSize ≤ (after oc lc cs).orderIndex.collisions ∧
      ((∀ pre, pre <+: cs → (after oc lc pre).Narrow) →
        (after oc lc cs).orderIndex.collisions = 0) := by
  obtain ⟨hle, hzero⟩ := slotsApart_after oc lc cs hcap hroomy
  exact ⟨hzero, hle, fun hnarrow => hzero.mpr fun pre hpre => (hnarrow pre hpre).slotsApart⟩

/-- The second id has the slot of the first one. When the first order is gone, the second one stays
in the overflow map, and an order with the first id gets the slot. -/
def sharing : List Call :=
  [.addOrder 1 10 (ascii 'B') 300 1000000 1 MPID.blank false,
    .addOrder 1 33554442 (ascii 'B') 200 1000000 2 MPID.blank false,
    .orderDelete 1 10,
    .addOrder 1 10 (ascii 'B') 300 1000000 3 MPID.blank false]

/-- A run in which two live ids share a slot. -/
theorem collisions_after_sample : ((after 4 4 sharing).orderIndex.collisions = 0 ↔
      ∀ pre, pre <+: sharing → (after 4 4 pre).SlotsApart) ∧
    (after 4 4 sharing).orderIndex.overflowSize ≤ (after 4 4 sharing).orderIndex.collisions ∧
    ((∀ pre, pre <+: sharing → (after 4 4 pre).Narrow) →
      (after 4 4 sharing).orderIndex.collisions = 0) :=
  collisions_after 4 4 sharing (by decide) fun pre _ =>
    after_roomy 4 4 pre (by decide) (by decide)

example : (after 4 4 sharing).orderIndex.collisions = 1 ∧
    (after 4 4 sharing).orderIndex.overflowSize = 1 := by decide +kernel

end MatchingEngine
end ItchParser
