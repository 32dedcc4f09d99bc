import ItchParser.OrderBook.Runs

/-!
# Adding an order and removing it again

`undone_iff` says when `add_order` is undone by `remove_order`: in the states of disciplined runs,
unless the order opens a level on a side whose level map is full. There the map drops the new level
without a sign, the level is linked all the same, and `remove_order` does not find it.
-/

namespace ItchParser

open Intrusive Ladder Machine OrderBook PriceLevel

namespace BookState

/-- A price level with its aggregates and the orders of its queue, front first. -/
structure LevelContents where
  price : Price
  totalShares : UInt64
  orderCount : UInt32
  orders : List (Ptr × OrderData)

/-- The levels of one side, best level first. -/
def contents (st : BookState) (s : Side) : List LevelContents :=
  (st.levelList s).map fun lvl =>
    ⟨(st.levels lvl).priceCents, (st.levels lvl).totalShares, (st.levels lvl).orderCount,
      (st.orderList lvl).map fun p => (p, (st.orders p).toOrderData)⟩

/-- The levels, orders, aggregates and counts of the book and the free level slots are the same. -/
structure SameBook (st st' : BookState) : Prop where
  contents : ∀ s, st'.contents s = st.contents s
  levelCount : ∀ s, (st'.book.side s).levelCount = (st.book.side s).levelCount
  liveOrderCount : st'.book.liveOrderCount = st.book.liveOrderCount
  freeLevels : st'.levelPool.freeCount = st.levelPool.freeCount

/-- `add_order` turns the order away and changes nothing, or `remove_order` takes it off again and
the book is as before. -/
def Undone (st : BookState) (o : Ptr) : Prop :=
  st.addOrder o = (0, st) ∨
    (st.addOrder o).1 ≠ 0 ∧ ((st.addOrder o).2.removeOrder o).1 ≠ 0 ∧
      SameBook st ((st.addOrder o).2.removeOrder o).2

/-- The order would open a level, a level slot is free, and the map of the side has no room. -/
def MapFull (st : BookState) (o : Ptr) : Prop :=
  0 < st.levelPool.freeCount ∧
    st.book.findLevel (st.orders o).side (st.orders o).priceCents = none ∧
    (st.levelList (st.orders o).side).length = kPriceLevelMapCapacity

variable {st st' : BookState} {resting free free' : List Ptr} {rungs rungs' : Side → List Rung}
  {s s' : Side} {g : Rung} {o lvl : Ptr}

/-! ## The book read off its resting orders -/

/-- The prices and orders of a side's levels. -/
def groups (orders : Ptr → Order) (s : Side) (resting : List Ptr) : List (Price × List Ptr) :=
  ladder (pricePolicy s) (priceOf orders) (onSide orders s resting)

/-- What a level with the orders `g.2` at the price `g.1` looks like. -/
def LevelContents.ofGroup (orders : Ptr → Order) (g : Price × List Ptr) : LevelContents :=
  ⟨g.1, UInt64.ofNat (sharesOf orders g.2), UInt32.ofNat g.2.length,
    g.2.map fun p => (p, (orders p).toOrderData)⟩

/-- The groups depend on the data of the orders only. -/
theorem groups_congr {orders orders' : Ptr → Order} (h : orderData orders' = orderData orders) :
    groups orders' s resting = groups orders s resting :=
  ladder_onSide_congr (fun p => congrArg OrderData.priceCents (congrFun h p))
    fun p => congrArg OrderData.side (congrFun h p)

/-- A new order joins the groups of its side. -/
theorem groups_concat (orders : Ptr → Order) (s : Side) (resting : List Ptr) (o : Ptr) :
    groups orders s (resting ++ [o]) =
      if (orders o).side = s then
        enqueue (pricePolicy s) (priceOf orders) o (groups orders s resting)
      else groups orders s resting := by
  unfold groups onSide
  rw [List.filter_append]
  split
  · next hs => rw [List.filter_cons_of_pos (by simp [hs]), List.filter_nil, ladder_concat]
  · next hs => rw [List.filter_cons_of_neg (by simp [hs]), List.filter_nil, List.append_nil]

/-- The rungs are the groups of the resting orders. -/
theorem Standing.priced_eq (h : st.Standing resting free rungs) (s : Side) :
    ItchParser.priced st.levels (rungs s) = groups st.orders s resting :=
  (h.represents.sides s).grouping

/-- There are as many rungs as groups. -/
theorem Standing.length_eq (h : st.Standing resting free rungs) (s : Side) :
    (rungs s).length = (groups st.orders s resting).length := by
  rw [← h.priced_eq, ItchParser.priced, List.length_map]

/-- The contents of a side are those of its groups. -/
theorem Standing.contents_eq (h : st.Standing resting free rungs) (s : Side) :
    st.contents s = (groups st.orders s resting).map (LevelContents.ofGroup st.orders) := by
  rw [← h.priced_eq, contents, h.levelList_eq, ItchParser.priced, List.map_map, List.map_map]
  refine List.map_congr_left fun g hg => ?_
  have hqueue := (h.represents.sides s).queues g hg
  simp only [Function.comp_apply, LevelContents.ofGroup, orderList_eq h.represents hg,
    hqueue.shares, hqueue.count]

/-- What a level shows depends on the data of its orders only. -/
theorem LevelContents.ofGroup_congr {orders orders' : Ptr → Order}
    (h : orderData orders' = orderData orders) :
    LevelContents.ofGroup orders' = LevelContents.ofGroup orders := by
  funext g
  have hdata : ∀ p, (orders' p).toOrderData = (orders p).toOrderData := congrFun h
  simp only [LevelContents.ofGroup, sharesOf_congr fun p _ => hdata p, hdata]

/-- A book is determined by its resting orders and what they say. -/
theorem Standing.same (h : st.Standing resting free rungs) (h' : st'.Standing resting free' rungs')
    (hdata : orderData st'.orders = orderData st.orders)
    (hslots : free'.length + levelTotal rungs' = free.length + levelTotal rungs) :
    SameBook st st' := by
  have hlength : ∀ s, (rungs' s).length = (rungs s).length := fun s => by
    rw [h'.length_eq, h.length_eq, groups_congr hdata]
  refine ⟨fun s => ?_, fun s => ?_, ?_, ?_⟩
  · rw [h'.contents_eq, h.contents_eq, groups_congr hdata, LevelContents.ofGroup_congr hdata]
  · rw [(h'.represents.sides s).levelCount, (h.represents.sides s).levelCount, hlength]
  · rw [h'.represents.liveOrderCount, h.represents.liveOrderCount]
  · have htotal : levelTotal rungs' = levelTotal rungs := by
      unfold levelTotal
      rw [hlength, hlength]
    rw [h'.pool.freeCount_eq, h.pool.freeCount_eq]
    omega

/-! ## With room in the map -/

/-- Adding an order leaves the other side alone and lengthens its own by at most one level. -/
theorem Standing.length_add (h : st.Standing resting free rungs)
    (h' : st'.Standing (resting ++ [o]) free' rungs')
    (hdata : orderData st'.orders = orderData st.orders) (s : Side) :
    (rungs' s).length = (rungs s).length +
      if (st.orders o).side = s ∧ opensLevel st.orders resting o = true then 1 else 0 := by
  rw [h'.length_eq, groups_congr hdata, groups_concat, h.length_eq]
  by_cases hs : (st.orders o).side = s
  · subst hs
    rw [if_pos rfl, groups, length_enqueue (pricePolicy_lawful _)
      (ladder_sorted (pricePolicy_lawful _) _)]
    simp only [true_and]
    rfl
  · simp only [hs, if_false, false_and, Nat.add_zero]

/-- An arrival lengthens a group by at most one. -/
theorem length_le_of_mem_enqueue {P : Policy Price} {key : Ptr → Price} {n : Nat}
    {ls : List (Price × List Ptr)} {g : Price × List Ptr} (hls : ∀ g ∈ ls, g.2.length < n)
    (hpos : 0 < n) (hg : g ∈ enqueue P key o ls) : g.2.length ≤ n := by
  induction ls with
  | nil =>
      obtain rfl : g = (key o, [o]) := by simpa [enqueue] using hg
      exact hpos
  | cons a ls ih =>
      obtain ⟨k, xs⟩ := a
      have hxs := hls (k, xs) (by simp)
      have hrest : ∀ g ∈ ls, g.2.length < n := fun g hg => hls g (by simp [hg])
      rw [enqueue] at hg
      split at hg
      · rcases List.mem_cons.mp hg with rfl | hg
        · rw [List.length_append]
          exact hxs
        · exact (hrest g hg).le
      · split at hg
        · rcases List.mem_cons.mp hg with rfl | hg
          · exact hxs.le
          · exact ih hrest hg
        · rcases List.mem_cons.mp hg with rfl | hg
          · exact hpos
          · exact (hls g hg).le

/-- A queue grows by one order at most. -/
theorem Standing.orders_add (h : st.Standing resting free rungs) (hbounded : st.Bounded)
    (h' : st'.Standing (resting ++ [o]) free' rungs')
    (hdata : orderData st'.orders = orderData st.orders) (hg : g ∈ rungs' s) :
    g.2.length ≤ 4294967296 := by
  have hgroup : ((st'.levels g.1).priceCents, g.2) ∈ groups st.orders s (resting ++ [o]) := by
    rw [← groups_congr hdata, ← h'.priced_eq]
    exact List.mem_map.mpr ⟨g, hg, rfl⟩
  have hold : ∀ a ∈ groups st.orders s resting, a.2.length < 4294967296 := by
    intro a ha
    rw [← h.priced_eq] at ha
    obtain ⟨g', hg', rfl⟩ := List.mem_map.mp ha
    exact h.orders_lt hbounded hg'
  rw [groups_concat] at hgroup
  split at hgroup
  · exact length_le_of_mem_enqueue hold (by decide) hgroup
  · exact (hold _ hgroup).le

/-- The order that was added last is the one that is removed. -/
theorem filter_append_self (hfresh : o ∉ resting) :
    (resting ++ [o]).filter (fun p => p ≠ o) = resting := by
  have hself : resting.filter (fun p => p ≠ o) = resting :=
    List.filter_eq_self.mpr fun p hp => by simpa using ne_of_mem_of_not_mem hp hfresh
  rw [List.filter_append, hself, List.filter_cons_of_neg (by simp), List.filter_nil,
    List.append_nil]

/-- The search for the order's price fails exactly when the order has to open a level. -/
theorem Standing.findLevel_none_iff (h : st.Standing resting free rungs)
    (hbounded : st.Bounded) :
    st.book.findLevel (st.orders o).side (st.orders o).priceCents = none ↔
      opensLevel st.orders resting o = true := by
  rw [opensLevel_eq h.represents, ← levelAt_eq_none_iff,
    h.represents.findLevel_eq (h.fits hbounded _)]
  refine ⟨fun hjoin => ?_, fun hnone => by rw [hnone]; rfl⟩
  unfold levelAt at hjoin ⊢
  split
  · rfl
  · next hpx =>
      rw [if_neg hpx] at hjoin
      cases hfind : (rungs (st.orders o).side).find? _ with
      | none => rfl
      | some g =>
          rw [hfind] at hjoin
          cases hjoin

/-- The map is full when a level is opened and all slots have one. -/
theorem Standing.mapFull_iff (h : st.Standing resting free rungs) (hbounded : st.Bounded) :
    st.MapFull o ↔ 0 < free.length ∧ opensLevel st.orders resting o = true ∧
      (rungs (st.orders o).side).length = kPriceLevelMapCapacity := by
  rw [MapFull, h.pool.freeCount_eq, h.findLevel_none_iff hbounded, h.levelList_eq, List.length_map]

/-- With room in the map, no side has too many levels after the add. -/
theorem Standing.fits_add (h : st.Standing resting free rungs) (hbounded : st.Bounded)
    (hroom : ¬ st.MapFull o) (hadded : 0 < (st.addOrder o).1)
    (h' : st'.Standing (resting ++ [o]) free' rungs')
    (hdata : orderData st'.orders = orderData st.orders) (s : Side) :
    (rungs' s).length ≤ kPriceLevelMapCapacity := by
  have hfit := h.fits hbounded s
  rw [h.length_add h' hdata]
  split
  · next hopens =>
      obtain ⟨rfl, hopens⟩ := hopens
      have hfree : 0 < free.length := by
        rw [List.length_pos_iff]
        rintro rfl
        rw [addOrder_full h.represents h.pool (h.fits hbounded) hopens] at hadded
        exact absurd hadded (Int.lt_irrefl 0)
      rw [h.mapFull_iff hbounded] at hroom
      have hne : (rungs (st.orders o).side).length ≠ kPriceLevelMapCapacity :=
        fun he => hroom ⟨hfree, hopens, he⟩
      omega
  · exact hfit

/-- With room in the map, `remove_order` undoes `add_order`. -/
theorem Standing.undone (h : st.Standing resting free rungs) (hbounded : st.Bounded)
    (hfresh : o ∉ resting) (hpx : (st.orders o).priceCents ≠ kEmptyPrice)
    (hroom : ¬ st.MapFull o) : st.Undone o := by
  rcases h.add hbounded hfresh hpx with hfull | ⟨hadded, free', rungs', hupdate, hstands⟩
  · exact .inl hfull
  · obtain ⟨free'', rungs'', hrc, hupdate', hstands'⟩ := hstands.remove (o := o)
      (h.fits_add hbounded hroom hadded hstands hupdate.data_eq)
      (fun s g hg => h.orders_add hbounded hstands hupdate.data_eq hg) (by simp)
    rw [filter_append_self hfresh] at hstands'
    refine .inr ⟨by omega, ?_, h.same hstands' ?_ ?_⟩
    · rcases hrc with ⟨hrc, -⟩ | ⟨hrc, -⟩ <;> omega
    · rw [hupdate'.data_eq, hupdate.data_eq]
    · rw [hupdate'.slots, hupdate.slots]

/-! ## Without room in the map -/

/-- Linking a level leaves the maps alone. -/
theorem insertLevelSorted_map (st : BookState) (s s' : Side) (lvl : Ptr) :
    ((st.insertLevelSorted s lvl).book.side s').map = (st.book.side s').map := by
  obtain ⟨⟨b, n⟩, hscan⟩ : ∃ bn, scanLevels st.levels s (st.levels lvl).priceCents maxNodes none
    (st.book.side s).best = bn := ⟨_, rfl⟩
  rw [insertLevelSorted_book hscan]
  by_cases hs : s' = s
  · subst hs
    rw [setSide_side]
  · rw [setSide_other hs]

/-- The map of the order's side after an add that opens a level. -/
theorem addOrder_map {pool : MemoryPool PriceLevel}
    (hfind : st.book.findLevel (st.orders o).side (st.orders o).priceCents = none)
    (hacquire : st.levelPool.acquire = some (lvl, pool)) :
    ((st.addOrder o).2.book.side (st.orders o).side).map =
      ((st.book.side (st.orders o).side).map.insert levelLayout (st.orders o).priceCents
        (some lvl)).1 := by
  unfold addOrder
  simp only [hfind, hacquire]
  show ((OrderBook.setSide _ _ _).side _).map = _
  rw [setSide_side]
  show (FlatHashMap.insert levelLayout _ _ _).1 = _
  rw [insertLevelSorted_map, insertLevelSorted_price, setLevels_levels, modify_self]
  rfl

/-- As many levels as the map has slots leave no slot empty. -/
theorem Standing.map_full (h : st.Standing resting free rungs)
    (hlen : (rungs s).length = kPriceLevelMapCapacity) :
    ∀ i < kPriceLevelMapCapacity, (st.book.side s).map.slots levelLayout i ≠ none := by
  have hmap := (h.represents.sides s).map hlen.le
  have hnodup : ((st.levelList s).map fun lvl => (st.levels lvl).priceCents).Nodup := by
    unfold List.Nodup
    rw [List.pairwise_map]
    exact (h.sorted s).imp fun hahead => (pricePolicy_lawful s).ne hahead
  refine hmap.full hnodup (fun px hpx => ?_) ?_
  · obtain ⟨lvl, hlvl, hprice⟩ := List.mem_map.mp hpx
    rw [(h.levelAt_iff s px (some lvl)).mpr ⟨lvl, hlvl, hprice, rfl⟩]
    exact Option.some_ne_none _
  · rw [List.length_map, h.levelList_eq, List.length_map]
    exact hlen.ge

/-- Without its level a delete leaves the book alone. -/
theorem removeOrder_unfound
    (hfind : st.book.findLevel (st.orders o).side (st.orders o).priceCents = none) :
    st.removeOrder o = (0, st) := by
  unfold removeOrder
  simp only [hfind]

/-- With a full map, the new level is linked but `remove_order` does not find it. -/
theorem Standing.not_undone (h : st.Standing resting free rungs) (hbounded : st.Bounded)
    (hfresh : o ∉ resting) (hfull : st.MapFull o) : ¬ st.Undone o := by
  obtain ⟨hfree, hfind, -⟩ := id hfull
  obtain ⟨hpos, hopens, hlen⟩ := (h.mapFull_iff hbounded).mp hfull
  obtain ⟨lvl, rest, rfl⟩ := List.exists_cons_of_length_pos hpos
  have hmap := (h.represents.sides (st.orders o).side).map hlen.le
  have hlookup : levelAt st.levels (rungs (st.orders o).side) (st.orders o).priceCents = none :=
    levelAt_eq_none_iff.mpr ((opensLevel_eq h.represents).mp hopens)
  obtain ⟨hrc, rungs', -, hupdate⟩ := addOrder_opens h.represents h.pool (fun _ hq => hq)
    (h.fits hbounded) hfresh hopens
  have hdata : ((st.addOrder o).2.orders o).toOrderData = (st.orders o).toOrderData :=
    congrFun hupdate.data_eq o
  have hmissing : ((st.addOrder o).2.book).findLevel (st.orders o).side (st.orders o).priceCents =
      none := by
    rw [findLevel, addOrder_map hfind h.pool.acquire_cons,
      hmap.insert_full hlookup (h.map_full hlen)]
    exact hfind
  rintro (hrejected | ⟨-, hremoved, -⟩)
  · rw [hrejected] at hrc
    cases hrc
  · have hside : ((st.addOrder o).2.orders o).side = (st.orders o).side :=
      congrArg OrderData.side hdata
    have hprice : ((st.addOrder o).2.orders o).priceCents = (st.orders o).priceCents :=
      congrArg OrderData.priceCents hdata
    exact hremoved (congrArg Prod.fst (removeOrder_unfound (by rw [hside, hprice, hmissing])))

/-- In every state of a disciplined run, adding a fresh order is turned away cleanly or undone by
removing it, if and only if the order does not open a level on a side whose level map is full. -/
theorem undone_iff (orders : Ptr → Order) (capacity : UInt64) (calls : List BookCall)
    (hcalls : Disciplined (start orders capacity) calls) (o : Ptr)
    (hadd : (run step (start orders capacity) calls).Allowed (.add o)) :
    (run step (start orders capacity) calls).Undone o ↔
      ¬ (run step (start orders capacity) calls).MapFull o := by
  obtain ⟨⟨resting, free, rungs, hstands⟩, hbounded⟩ := hcalls.standing
  obtain ⟨hfresh, hpx⟩ := hadd
  rw [hstands.mem_forEachOrder] at hfresh
  exact ⟨fun hundone hfull => hstands.not_undone hbounded hfresh hfull hundone,
    hstands.undone hbounded hfresh hpx⟩

/-! ## A full map -/

/-- Buy orders whose prices are their addresses. -/
def addressBids (p : Ptr) : Order :=
  Order.create 0 1 (UInt32.ofNat p.val) 100 .buy 1 MPID.blank

/-- The first `n` order slots. -/
def firstSlots (n : Nat) : List Ptr :=
  (List.range n).map Ptr.ofNat

/-- One new price after the other. -/
def risingAdds (n : Nat) : List BookCall :=
  (firstSlots n).map .add

/-- The book of one order, and no level slot left for a second one. -/
theorem undone_iff_sample :
    (run step (start addressBids 1) [.add 3]).Undone 4 ↔
      ¬ (run step (start addressBids 1) [.add 3]).MapFull 4 :=
  undone_iff addressBids 1 [.add 3] (by decide +kernel) 4 (by decide +kernel)

/-- One more slot. -/
theorem firstSlots_succ (n : Nat) :
    firstSlots (n + 1) = firstSlots n ++ [Ptr.ofNat n] := by
  rw [firstSlots, List.range_succ, List.map_append, List.map_singleton, firstSlots]

/-- The number of a slot. -/
theorem slot_val {n : Nat} (hn : n ≤ 8192) : (Ptr.ofNat n).val = n := by
  rw [Ptr.ofNat, Fin.val_ofNat, Nat.mod_eq_of_lt (by omega)]

/-- The first slots have small numbers. -/
theorem lt_of_mem_firstSlots {n : Nat} (hn : n ≤ 8192) {p : Ptr} (hp : p ∈ firstSlots n) :
    p.val < n := by
  obtain ⟨i, hi, rfl⟩ := List.mem_map.mp hp
  rw [List.mem_range] at hi
  rw [slot_val (by omega)]
  exact hi

/-- The next slot is not among the first ones. -/
theorem slot_fresh {n : Nat} (hn : n ≤ 8192) : Ptr.ofNat n ∉ firstSlots n := by
  intro hmem
  have hlt := lt_of_mem_firstSlots hn hmem
  rw [slot_val hn] at hlt
  omega

/-- No bid is at the reserved price. -/
theorem addressBids_priced {p : Ptr} (hp : p.val ≤ 8192) :
    (addressBids p).priceCents ≠ kEmptyPrice := by
  show UInt32.ofNat p.val ≠ 4294967295
  intro he
  rw [← UInt32.toNat_inj, UInt32.toNat_ofNat', Nat.mod_eq_of_lt (by omega)] at he
  have hvalue : p.val = 4294967295 := he
  omega

/-- A book that holds the first `n` orders and has a level for each of them. -/
structure Climbed (st : BookState) (n : Nat) (free : List Ptr) (rungs : Side → List Rung) :
    Prop where
  standing : st.Standing (firstSlots n) free rungs
  data : orderData st.orders = orderData addressBids
  free : free.length + n = 8193
  levels : levelTotal rungs = n

/-- The next order has a new price. -/
theorem Climbed.opens {n : Nat} (h : st.Climbed n free rungs) (hn : n ≤ 8192) :
    opensLevel st.orders (firstSlots n) (Ptr.ofNat n) = true := by
  have hprice : ∀ p, (st.orders p).priceCents = UInt32.ofNat p.val := fun p =>
    congrArg OrderData.priceCents (congrFun h.data p)
  refine (opensLevel_eq h.standing.represents).mpr (.inr fun g hg he => ?_)
  obtain ⟨p, hp⟩ := List.exists_mem_of_ne_nil _ (h.standing.rung_ne_nil hg)
  have hlt := lt_of_mem_firstSlots hn (h.standing.represents.mem_of_rung hg hp).1
  rw [← (h.standing.represents.sides _).price_eq hg hp, hprice, hprice, slot_val hn,
    ← UInt32.toNat_inj, UInt32.toNat_ofNat', UInt32.toNat_ofNat', Nat.mod_eq_of_lt (by omega),
    Nat.mod_eq_of_lt (by omega)] at he
  omega

/-- A book that has climbed is within the limits. -/
theorem Climbed.bounded {n : Nat} (h : st.Climbed n free rungs) (hn : n ≤ 8192) : st.Bounded := by
  have hlevels := h.levels
  unfold levelTotal at hlevels
  refine ⟨fun s => ?_, fun s lvl hlvl => ?_⟩
  · rw [h.standing.levelList_eq, List.length_map]
    show _ ≤ 8192
    cases s <;> omega
  · obtain ⟨g, hg, rfl⟩ := h.standing.mem_levelList hlvl
    rw [orderList_eq h.standing.represents hg]
    have hsub : g.2 ⊆ firstSlots n := fun p hp => (h.standing.represents.mem_of_rung hg hp).1
    have hnodup := ((h.standing.represents.sides s).queues g hg).linked.nodup
    have hlen := (hnodup.subperm hsub).length_le
    rw [firstSlots, List.length_map, List.length_range] at hlen
    omega

/-- The next order may be added. -/
theorem Climbed.allowed {n : Nat} (h : st.Climbed n free rungs) (hn : n ≤ 8192) :
    st.Allowed (.add (Ptr.ofNat n)) := by
  refine ⟨by rw [h.standing.mem_forEachOrder]; exact slot_fresh hn, ?_⟩
  have hprice : (st.orders (Ptr.ofNat n)).priceCents =
      (addressBids (Ptr.ofNat n)).priceCents :=
    congrArg OrderData.priceCents (congrFun h.data _)
  rw [hprice]
  exact addressBids_priced (by rw [slot_val hn]; exact hn)

/-- One more order opens one more level. -/
theorem Climbed.add {n : Nat} (h : st.Climbed n free rungs) (hn : n < 8192) :
    ∃ free' rungs', (st.step (.add (Ptr.ofNat n))).Climbed (n + 1) free' rungs' := by
  have hopens := h.opens hn.le
  have hbounded := h.bounded hn.le
  obtain ⟨hstanding, hdata, hfree, hlevels⟩ := h
  obtain ⟨lvl, rest, rfl⟩ := List.exists_cons_of_length_pos (show 0 < free.length by omega)
  obtain ⟨-, rungs', htotal, hupdate⟩ := addOrder_opens hstanding.represents hstanding.pool
    (fun _ hq => hq) (hstanding.fits hbounded) (slot_fresh hn.le) hopens
  rw [← firstSlots_succ] at hupdate
  refine ⟨rest, rungs', hupdate.standing fun p hp => ?_, hupdate.data_eq.trans hdata, ?_, ?_⟩
  · have hlt := lt_of_mem_firstSlots hn hp
    rw [hdata]
    exact addressBids_priced (by omega)
  · rw [List.length_cons] at hfree
    omega
  · rw [htotal, hlevels]

/-- Adding one order after the other climbs. -/
theorem climbed_risingAdds {n : Nat} (hn : n ≤ 8192) :
    Disciplined (start addressBids 8193) (risingAdds n) ∧
      ∃ free rungs, (run step (start addressBids 8193) (risingAdds n)).Climbed n free rungs := by
  induction n with
  | zero =>
      obtain ⟨free, hstart, hfree⟩ := start_standing addressBids 8193
      exact ⟨trivial, free, _, hstart, rfl, hfree, rfl⟩
  | succ n ih =>
      obtain ⟨hrun, free, rungs, hclimbed⟩ := ih (by omega)
      have hadds : risingAdds (n + 1) = risingAdds n ++ [.add (Ptr.ofNat n)] := by
        rw [risingAdds, firstSlots_succ, List.map_append, List.map_singleton, risingAdds]
      obtain ⟨free', rungs', hnext⟩ := hclimbed.add (by omega)
      rw [hadds, run_concat]
      exact ⟨along_concat.mpr ⟨hrun, hclimbed.allowed (by omega), hnext.bounded hn⟩, free', rungs',
        hnext⟩

/-- At the top the side of the next order has no room in its map. -/
theorem Climbed.mapFull {n : Nat} (h : st.Climbed n free rungs) (hn : n = 8192) :
    st.MapFull (Ptr.ofNat n) := by
  have hside : ∀ p, (st.orders p).side = .buy := fun p =>
    congrArg OrderData.side (congrFun h.data p)
  have hsell : rungs .sell = [] := by
    refine List.eq_nil_iff_forall_not_mem.mpr fun g hg => ?_
    obtain ⟨p, hp⟩ := List.exists_mem_of_ne_nil _ (h.standing.rung_ne_nil hg)
    have hsold := (h.standing.represents.mem_of_rung hg hp).2
    rw [hside] at hsold
    cases hsold
  have hfree := h.free
  have hlevels := h.levels
  rw [levelTotal, hsell, List.length_nil, Nat.add_zero] at hlevels
  rw [h.standing.mapFull_iff (h.bounded hn.le), hside]
  exact ⟨by omega, h.opens hn.le, hlevels.trans hn⟩

/-- The 8193rd level is not undone. -/
theorem not_undone_of_top {n : Nat} (hn : n = 8192) :
    Disciplined (start addressBids 8193) (risingAdds n) ∧
      (run step (start addressBids 8193) (risingAdds n)).Allowed (.add (Ptr.ofNat n)) ∧
      ¬ (run step (start addressBids 8193) (risingAdds n)).Undone (Ptr.ofNat n) := by
  obtain ⟨hrun, free, rungs, hclimbed⟩ := climbed_risingAdds hn.le
  exact ⟨hrun, hclimbed.allowed hn.le, hclimbed.standing.not_undone (hclimbed.bounded hn.le)
    (slot_fresh hn.le) (hclimbed.mapFull hn)⟩

/-- With a level for each of 8192 prices, an order at one more price is neither turned away nor
taken off again. -/
theorem fullMap_not_undone :
    Disciplined (start addressBids 8193) (risingAdds 8192) ∧
      (run step (start addressBids 8193) (risingAdds 8192)).Allowed (.add (Ptr.ofNat 8192)) ∧
      ¬ (run step (start addressBids 8193) (risingAdds 8192)).Undone (Ptr.ofNat 8192) :=
  not_undone_of_top rfl

end BookState
end ItchParser
