import ItchParser.Lib.Machine
import ItchParser.OrderBook.Add
import ItchParser.OrderBook.Clear
import ItchParser.OrderBook.Remove

/-!
# Runs of one book

The calls that the owner of a book and a level pool can make, in any order. Between the calls the
owner may write anything into an order object that the book does not hold. A run keeps the rules
when it only adds orders that are not linked and only touches linked ones otherwise. `Standing` is
the invariant of such a run, for as long as no side has more levels than the level map can hold and
no order counter wraps around.
-/

namespace ItchParser

open Intrusive Ladder Machine OrderBook PriceLevel

/-- What the owner of a book does next. -/
inductive BookCall where
  | write (p : Ptr) (order : Order)
  | add (o : Ptr)
  | execute (o : Ptr) (qty : Shares)
  | cancel (o : Ptr) (qty : Shares)
  | remove (o : Ptr)
  | clear

namespace BookState

/-- A new book over the order memory `orders`, with a new level pool. -/
def start (orders : Ptr → Order) (capacity : UInt64) : BookState :=
  ⟨OrderBook.create, orders, MemoryPool.create capacity⟩

/-- What a call does to the book and the memory. -/
def step (st : BookState) : BookCall → BookState
  | .write p order => { st with orders := Function.update st.orders p order }
  | .add o => (st.addOrder o).2
  | .execute o qty => (st.executeOrder o qty).2
  | .cancel o qty => (st.cancelOrder o qty).2
  | .remove o => (st.removeOrder o).2
  | .clear => st.clearLevels

/-- The rules of a call: added orders are not yet linked and have a price, reduced and removed
orders are linked. -/
def Allowed (st : BookState) : BookCall → Prop
  | .write p _ => p ∉ st.forEachOrder
  | .add o => o ∉ st.forEachOrder ∧ (st.orders o).priceCents ≠ kEmptyPrice
  | .execute o _ | .cancel o _ | .remove o => o ∈ st.forEachOrder
  | .clear => True

/-- No side has more levels than its map can hold, and no level as many orders as make its counter
wrap around. -/
structure Bounded (st : BookState) : Prop where
  levels : ∀ s, (st.levelList s).length ≤ kPriceLevelMapCapacity
  orders : ∀ s, ∀ lvl ∈ st.levelList s, (st.orderList lvl).length < 4294967296

/-- The limits, as something that can be checked. -/
theorem bounded_iff (st : BookState) : st.Bounded ↔
    (∀ s, (st.levelList s).length ≤ kPriceLevelMapCapacity) ∧
      ∀ s, ∀ lvl ∈ st.levelList s, (st.orderList lvl).length < 4294967296 :=
  ⟨fun h => ⟨h.levels, h.orders⟩, fun h => ⟨h.1, h.2⟩⟩

instance (st : BookState) : Decidable st.Bounded :=
  have (s : Side) :
      Decidable (∀ lvl ∈ st.levelList s, (st.orderList lvl).length < 4294967296) :=
    List.decidableBAll _ _
  decidable_of_iff' _ st.bounded_iff

instance (st : BookState) : DecidablePred st.Allowed
  | .write _ _ => inferInstanceAs (Decidable (_ ∉ _))
  | .add _ => inferInstanceAs (Decidable (_ ∧ _))
  | .execute _ _ | .cancel _ _ | .remove _ => inferInstanceAs (Decidable (_ ∈ _))
  | .clear => inferInstanceAs (Decidable True)

/-- A run that keeps the rules, and whose states all stay within the bounds. -/
def Disciplined (st : BookState) (calls : List BookCall) : Prop :=
  Along step (fun st c => st.Allowed c ∧ (st.step c).Bounded) st calls

instance (st : BookState) (calls : List BookCall) : Decidable (st.Disciplined calls) :=
  inferInstanceAs (Decidable (Along _ _ _ _))

/-- The book stands for the orders `resting` and owns every level that is not in the free list. -/
structure Standing (st : BookState) (resting free : List Ptr) (rungs : Side → List Rung) :
    Prop where
  represents : st.book.Represents st.orders st.levels resting rungs
  pool : st.levelPool.Represents free (OnRung rungs)
  priced : ∀ p ∈ resting, (st.orders p).priceCents ≠ kEmptyPrice

variable {st st' : BookState} {resting resting' free free' : List Ptr}
  {rungs rungs' : Side → List Rung} {s : Side} {g : Rung} {o : Ptr} {data : Ptr → OrderData}
  {c : BookCall} {lvl : Ptr} {px : Price}

/-! ## What can be read off a book -/

/-- The traversal of a side passes its rungs. -/
theorem Standing.levelList_eq (h : st.Standing resting free rungs) (s : Side) :
    st.levelList s = (rungs s).map Prod.fst :=
  BookState.levelList_eq (h.represents.sides s).toThreads

/-- A level that is passed is a rung. -/
theorem Standing.mem_levelList (h : st.Standing resting free rungs)
    (hlvl : lvl ∈ st.levelList s) : ∃ g ∈ rungs s, g.1 = lvl := by
  rw [h.levelList_eq] at hlvl
  exact List.mem_map.mp hlvl

/-- The orders that are passed are the resting ones. -/
theorem Standing.mem_forEachOrder (h : st.Standing resting free rungs) :
    o ∈ st.forEachOrder ↔ o ∈ resting :=
  (forEachOrder_perm h.represents).mem_iff

/-- Within the limits the rungs fit into the map. -/
theorem Standing.fits (h : st.Standing resting free rungs) (hbounded : st.Bounded) :
    ∀ s, (rungs s).length ≤ kPriceLevelMapCapacity := by
  intro s
  have hlevels := hbounded.levels s
  rwa [h.levelList_eq, List.length_map] at hlevels

/-- Within the limits the counter of a level does not wrap. -/
theorem Standing.orders_lt (h : st.Standing resting free rungs) (hbounded : st.Bounded)
    (hg : g ∈ rungs s) : g.2.length < 4294967296 := by
  have horders := hbounded.orders s g.1 (by rw [h.levelList_eq]; exact List.mem_map_of_mem hg)
  rwa [orderList_eq h.represents hg] at horders

/-- No level is empty. -/
theorem Standing.rung_ne_nil (h : st.Standing resting free rungs) (hg : g ∈ rungs s) : g.2 ≠ [] :=
  (h.represents.sides s).ne_nil hg

/-- No level has the reserved price. -/
theorem Standing.level_priced (h : st.Standing resting free rungs) (hg : g ∈ rungs s) :
    (st.levels g.1).priceCents ≠ kEmptyPrice := by
  obtain ⟨p, hp⟩ := List.exists_mem_of_ne_nil _ (h.rung_ne_nil hg)
  rw [← (h.represents.sides s).price_eq hg hp]
  exact h.priced p (h.represents.mem_of_rung hg hp).1

/-- The levels of a side are in strict price order, because none has the reserved price. -/
theorem Standing.sorted (h : st.Standing resting free rungs) (s : Side) :
    (st.levelList s).Pairwise fun p q =>
      ahead s (st.levels p).priceCents (st.levels q).priceCents := by
  have hsorted := (h.represents.sides s).sorted
  unfold Sorted ItchParser.priced at hsorted
  rw [List.pairwise_map] at hsorted
  rw [h.levelList_eq, List.pairwise_map]
  refine hsorted.imp_of_mem fun {a b} ha _ hab => ?_
  rcases hab with hahead | ⟨-, hunshared⟩
  · exact hahead
  · rw [pricePolicy_shared.mpr (h.level_priced ha)] at hunshared
    cases hunshared

/-- The level map of a side holds the levels of its list and nothing else. -/
theorem Standing.levelAt_iff (h : st.Standing resting free rungs) (s : Side) (px : Price)
    (v : Option Ptr) : levelAt st.levels (rungs s) px = some v ↔
      ∃ lvl ∈ st.levelList s, (st.levels lvl).priceCents = px ∧ v = some lvl := by
  rw [h.levelList_eq]
  constructor
  · intro hat
    unfold levelAt at hat
    split at hat
    · cases hat
    · obtain ⟨g, hfind, rfl⟩ := Option.map_eq_some_iff.mp hat
      have hpx := List.find?_some hfind
      exact ⟨g.1, List.mem_map_of_mem (List.mem_of_find?_eq_some hfind), by simpa using hpx, rfl⟩
  · rintro ⟨lvl, hlvl, rfl, rfl⟩
    obtain ⟨g, hg, rfl⟩ := List.mem_map.mp hlvl
    have hpriced := h.level_priced hg
    obtain ⟨l, r, hrungs⟩ := List.append_of_mem hg
    have hside := h.represents.sides s
    rw [hrungs] at hside ⊢
    exact levelAt_eq_some hpriced rfl fun a ha => hside.price_ne hpriced (by simp [ha])

/-- The map finds a level of the list by its price. -/
theorem Standing.findLevel_iff (h : st.Standing resting free rungs) (hbounded : st.Bounded)
    (s : Side) (px : Price) (lvl : Ptr) :
    st.book.findLevel s px = some lvl ↔
      lvl ∈ st.levelList s ∧ (st.levels lvl).priceCents = px := by
  rw [h.represents.findLevel_eq (h.fits hbounded s), Option.join_eq_some_iff, h.levelAt_iff]
  simp only [Option.some.injEq]
  constructor
  · rintro ⟨lvl', hlvl, hpx, rfl⟩
    exact ⟨hlvl, hpx⟩
  · rintro ⟨hlvl, hpx⟩
    exact ⟨lvl, hlvl, hpx, rfl⟩

/-- The counter of a side counts its levels. -/
theorem Standing.levelCount_eq (h : st.Standing resting free rungs) (hbounded : st.Bounded)
    (s : Side) : (st.book.side s).levelCount.toNat = (st.levelList s).length := by
  have hfits := h.fits hbounded s
  have hsmall : kPriceLevelMapCapacity < 18446744073709551616 := by decide
  rw [(h.represents.sides s).levelCount, h.levelList_eq, List.length_map, UInt64.toNat_ofNat',
    Nat.mod_eq_of_lt (by omega)]

/-- The counter of the book counts its orders. -/
theorem Standing.liveOrderCount_eq (h : st.Standing resting free rungs) :
    st.book.liveOrderCount.toNat = st.forEachOrder.length := by
  have hlen : resting.length ≤ 18446744073709551615 := length_le_maxNodes h.represents.nodup
  rw [h.represents.liveOrderCount, (forEachOrder_perm h.represents).length_eq, UInt64.toNat_ofNat',
    Nat.mod_eq_of_lt (by omega)]

/-- A new book stands, and all levels are free. -/
theorem start_standing (orders : Ptr → Order) (capacity : UInt64) :
    ∃ free, (start orders capacity).Standing [] free (fun _ => []) ∧
      free.length = capacity.toNat := by
  have hpool := MemoryPool.create_represents (T := PriceLevel) capacity
  exact ⟨_, ⟨create_represents orders _, hpool.congr_used fun q => by simp [OnRung], by simp⟩,
    by simp⟩

/-- An empty book is within the limits. -/
theorem Standing.bounded_nil (h : st.Standing [] free fun _ => []) : st.Bounded := by
  refine ⟨fun s => ?_, fun s lvl hlvl => ?_⟩
  · rw [h.levelList_eq]
    exact Nat.zero_le _
  · rw [h.levelList_eq] at hlvl
    simp at hlvl

/-! ## One call -/

/-- The book after a method call still stands for its orders, when none of them has moved to the
reserved price. -/
theorem Update.standing
    (hupdate : st.Update st' (OnRung rungs) free free' resting resting' rungs rungs' data)
    (hpriced : ∀ p ∈ resting', (data p).priceCents ≠ kEmptyPrice) :
    st'.Standing resting' free' rungs' := by
  refine ⟨hupdate.represents, hupdate.pool.congr_used fun q => ?_, fun p hp => ?_⟩
  · tauto
  · have hprice := hpriced p hp
    rw [← hupdate.data_eq] at hprice
    exact hprice

/-- Writing an order that is not linked leaves the book standing. -/
theorem Standing.write (h : st.Standing resting free rungs) (hfresh : o ∉ resting)
    (order : Order) : (st.step (.write o order)).Standing resting free rungs := by
  have hsame : ∀ p ∈ resting, Function.update st.orders o order p = st.orders p :=
    fun p hp => Function.update_of_ne (fun he : p = o => hfresh (he ▸ hp)) _ _
  refine ⟨h.represents.congr (fun _ _ _ => rfl) hsame, h.pool, fun p hp => ?_⟩
  show (Function.update st.orders o order p).priceCents ≠ kEmptyPrice
  rw [hsame p hp]
  exact h.priced p hp

/-- `add_order` turns the order away and changes nothing, or puts it behind all others. -/
theorem Standing.add (h : st.Standing resting free rungs) (hbounded : st.Bounded)
    (hfresh : o ∉ resting) (hpx : (st.orders o).priceCents ≠ kEmptyPrice) :
    st.addOrder o = (0, st) ∨ 0 < (st.addOrder o).1 ∧ ∃ free' rungs',
      st.Update (st.addOrder o).2 (OnRung rungs) free free' resting (resting ++ [o]) rungs rungs'
        (orderData st.orders) ∧ (st.addOrder o).2.Standing (resting ++ [o]) free' rungs' := by
  have hpriced : ∀ p ∈ resting ++ [o], (orderData st.orders p).priceCents ≠ kEmptyPrice := by
    intro p hp
    rcases List.mem_append.mp hp with hp | hp
    · exact h.priced p hp
    · rwa [List.mem_singleton.mp hp]
  cases hopens : opensLevel st.orders resting o with
  | false =>
      obtain ⟨hrc, rungs', -, hupdate⟩ :=
        addOrder_joins h.represents h.pool (fun _ hq => hq) (h.fits hbounded) hfresh hopens
      exact .inr ⟨by omega, free, rungs', hupdate, hupdate.standing hpriced⟩
  | true =>
      cases free with
      | nil => exact .inl (addOrder_full h.represents h.pool (h.fits hbounded) hopens)
      | cons lvl free =>
          obtain ⟨hrc, rungs', -, hupdate⟩ :=
            addOrder_opens h.represents h.pool (fun _ hq => hq) (h.fits hbounded) hfresh hopens
          exact .inr ⟨by omega, free, rungs', hupdate, hupdate.standing hpriced⟩

/-- `remove_order` takes a resting order off the book. -/
theorem Standing.remove (h : st.Standing resting free rungs)
    (hfit : ∀ s, (rungs s).length ≤ kPriceLevelMapCapacity)
    (hlen : ∀ s, ∀ g ∈ rungs s, g.2.length ≤ 4294967296) (ho : o ∈ resting) : ∃ free' rungs',
      Retires (st.removeOrder o).1 rungs rungs' ∧
      st.Update (st.removeOrder o).2 (OnRung rungs) free free' resting
        (resting.filter fun p => p ≠ o) rungs rungs' (orderData st.orders) ∧
      (st.removeOrder o).2.Standing (resting.filter fun p => p ≠ o) free' rungs' := by
  obtain ⟨free', rungs', hrc, hupdate⟩ := removeOrder_update h.represents h.pool (fun _ hq => hq)
    hfit hlen ho (h.priced o ho)
  exact ⟨free', rungs', hrc, hupdate, hupdate.standing fun p hp =>
    h.priced p (List.mem_filter.mp hp).1⟩

/-- `execute_order` takes shares off a resting order, and a filled order off the book. -/
theorem Standing.execute (h : st.Standing resting free rungs) (hbounded : st.Bounded)
    (ho : o ∈ resting) (qty : Shares) :
    ∃ resting' free' rungs', (st.executeOrder o qty).2.Standing resting' free' rungs' := by
  have hlen := fun s g (hg : g ∈ rungs s) => (h.orders_lt hbounded hg).le
  by_cases hqty : qty ≥ (st.orders o).sharesRemaining
  · obtain ⟨free', rungs', -, hupdate⟩ := executeOrder_filled h.represents h.pool (fun _ hq => hq)
      (h.fits hbounded) hlen ho (h.priced o ho) hqty
    refine ⟨_, free', rungs', hupdate.standing fun p hp => ?_⟩
    rw [orderData, reduced_price]
    exact h.priced p (List.mem_filter.mp hp).1
  · obtain ⟨-, hupdate⟩ := executeOrder_partial h.represents h.pool (fun _ hq => hq)
      (h.fits hbounded) ho (h.priced o ho) hqty
    refine ⟨resting, free, rungs, hupdate.standing fun p hp => ?_⟩
    rw [orderData, reduced_price]
    exact h.priced p hp

/-- A cleared book stands without orders. -/
theorem Standing.clear (h : st.Standing resting free rungs) :
    ∃ free', st.clearLevels.Standing [] free' fun _ => [] := by
  obtain ⟨hbook, -, ⟨free', hpool, -⟩, -, -⟩ := clearLevels_update
    (fun s => (h.represents.sides s).toThreads) h.pool fun _ hq => hq
  refine ⟨free', ?_, hpool.congr_used fun q => by simp [OnRung], by simp⟩
  rw [hbook]
  exact create_represents _ _

/-- Every call of a disciplined run leaves a book that stands for some orders. -/
theorem Standing.step (h : st.Standing resting free rungs) (hbounded : st.Bounded)
    (hallowed : st.Allowed c) :
    ∃ resting' free' rungs', (st.step c).Standing resting' free' rungs' := by
  cases c with
  | write p order =>
      exact ⟨_, _, _, h.write (fun hp => hallowed (h.mem_forEachOrder.mpr hp)) order⟩
  | add o =>
      obtain ⟨hfresh, hpx⟩ := hallowed
      rcases h.add hbounded (fun ho => hfresh (h.mem_forEachOrder.mpr ho)) hpx with
        hfull | ⟨-, free', rungs', -, hstands⟩
      · refine ⟨resting, free, rungs, ?_⟩
        rw [BookState.step, hfull]
        exact h
      · exact ⟨_, free', rungs', hstands⟩
  | execute o qty | cancel o qty =>
      exact h.execute hbounded (h.mem_forEachOrder.mp hallowed) qty
  | remove o =>
      obtain ⟨free', rungs', -, -, hstands⟩ := h.remove (h.fits hbounded)
        (fun s g hg => (h.orders_lt hbounded hg).le) (h.mem_forEachOrder.mp hallowed)
      exact ⟨_, free', rungs', hstands⟩
  | clear => exact ⟨_, h.clear.choose, _, h.clear.choose_spec⟩

/-! ## Runs -/

/-- At the end of a disciplined run the book stands for some orders, within the bounds. -/
theorem Disciplined.standing {orders : Ptr → Order} {capacity : UInt64} {calls : List BookCall}
    (h : Disciplined (start orders capacity) calls) :
    (∃ resting free rungs, (run step (start orders capacity) calls).Standing resting free rungs) ∧
      (run step (start orders capacity) calls).Bounded := by
  obtain ⟨free, hstart, -⟩ := start_standing orders capacity
  refine (Along.invariant (Q := fun _ _ => True)
    (I := fun st => (∃ resting free rungs, st.Standing resting free rungs) ∧ st.Bounded) h
    ⟨⟨[], free, _, hstart⟩, hstart.bounded_nil⟩ ?_).2
  rintro st c ⟨⟨resting, free, rungs, hst⟩, hbounded⟩ ⟨hallowed, hnext⟩
  exact ⟨trivial, hst.step hbounded hallowed, hnext⟩

end BookState
end ItchParser
