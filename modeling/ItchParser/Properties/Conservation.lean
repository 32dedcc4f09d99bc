import Mathlib.Algebra.BigOperators.Group.Finset.Piecewise
import ItchParser.Engine.Runs
import ItchParser.Market.Runs

/-!
# Conservation of orders, levels and slots

In every reachable state the order slots in use are the indexed orders and the orders linked in the
books, the level slots in use are the levels of the books, and the live counters say how many there
are. So no slot is lost, and none is free and in use at the same time.
-/

namespace ItchParser

open Ladder OrderBook Machine

namespace MatchingEngine

/-! ## The four structures -/

/-- The order slot `p` is acquired and not released. -/
def OrderAcquired (e : MatchingEngine) (p : Ptr) : Prop :=
  p.val < e.orderPool.capacity.toNat ∧ p ∉ e.orderPool.freeList

/-- The level slot `q` is acquired and not released. -/
def LevelAcquired (e : MatchingEngine) (q : Ptr) : Prop :=
  q.val < e.levelPool.capacity.toNat ∧ q ∉ e.levelPool.freeList

/-- The index holds the order in an array slot or in the overflow map. -/
def Indexed (e : MatchingEngine) (p : Ptr) : Prop :=
  (∃ i, e.orderIndex.slots i = some p) ∨ ∃ id, e.orderIndex.overflow.lookup id = some p

/-- The level `lvl` is on the list of side `s` of the book of `locate`. -/
def Listed (e : MatchingEngine) (locate : StockLocate) (s : Side) (lvl : Ptr) : Prop :=
  lvl ∈ (e.bookState (e.bookAt locate)).levelList s

/-- The order `p` is in the queue of the level `lvl`. -/
def Linked (e : MatchingEngine) (locate : StockLocate) (s : Side) (lvl p : Ptr) : Prop :=
  e.Listed locate s lvl ∧ p ∈ (e.bookState (e.bookAt locate)).orderList lvl

/-- The order slots in use, the index and the queues hold the same orders, each once. -/
structure OrdersConserved (e : MatchingEngine) : Prop where
  indexed_iff : ∀ p, e.Indexed p ↔ e.OrderAcquired p
  linked_iff : ∀ p, (∃ locate s lvl, e.Linked locate s lvl p) ↔ e.OrderAcquired p
  linked_once : ∀ {p locate s lvl locate' s' lvl'}, e.Linked locate s lvl p →
    e.Linked locate' s' lvl' p → locate = locate' ∧ s = s' ∧ lvl = lvl'
  queue_nodup : ∀ {locate s lvl}, e.Listed locate s lvl →
    ((e.bookState (e.bookAt locate)).orderList lvl).Nodup
  home : ∀ {p locate s lvl}, e.Linked locate s lvl p → (e.orders p).locate = locate
  slot_id : ∀ {i p}, e.orderIndex.slots i = some p →
    i = DirectOrderIndex.slotOf (e.orders p).orderId
  overflow_id : ∀ {id p}, e.orderIndex.overflow.lookup id = some p → id = (e.orders p).orderId
  indexed_once : ∀ {i id p}, e.orderIndex.slots i = some p →
    e.orderIndex.overflow.lookup id ≠ some p
  find_own : ∀ p, e.OrderAcquired p → e.findOrder (e.orders p).orderId = some p
  freeOrders_nodup : e.orderPool.freeList.Nodup
  free_order : ∀ p ∈ e.orderPool.freeList, ¬ e.Indexed p ∧ ∀ locate s lvl, ¬ e.Linked locate s lvl p

/-- The level slots in use are the levels of the books, each on one list. -/
structure LevelsConserved (e : MatchingEngine) : Prop where
  listed_iff : ∀ q, (∃ locate s, e.Listed locate s q) ↔ e.LevelAcquired q
  listed_once : ∀ {q locate s locate' s'}, e.Listed locate s q → e.Listed locate' s' q →
    locate = locate' ∧ s = s'
  levels_nodup : ∀ locate s, ((e.bookState (e.bookAt locate)).levelList s).Nodup
  freeLevels_nodup : e.levelPool.freeList.Nodup
  free_level : ∀ q ∈ e.levelPool.freeList, ∀ locate s, ¬ e.Listed locate s q

/-- The live counters count the orders and the levels of index, pools and books. They are positive
wherever a handler is about to lower them. -/
structure CountersConserved (e : MatchingEngine) : Prop where
  orders_indexed : e.stats.liveOrders = e.orderIndex.count.toNat
  orders_pool : e.stats.liveOrders + e.orderPool.freeCount = e.orderPool.capacity.toNat
  orders_books : e.stats.liveOrders = ∑ locate, (e.bookAt locate).liveOrderCount.toNat
  levels_pool : e.stats.liveLevels + e.levelPool.freeCount = e.levelPool.capacity.toNat
  levels_books : e.stats.liveLevels = ∑ locate, (e.bookAt locate).liveLevels.toNat
  guard_order : ∀ {id o}, e.findOrder id = some o → 0 < e.stats.liveOrders ∧ 0 < e.stats.liveLevels
  guard_book : ∀ locate,
    (e.bookState (e.bookAt locate)).forEachOrder.length ≤ e.stats.liveOrders ∧
      (e.bookAt locate).liveLevels.toNat ≤ e.stats.liveLevels

/-- Index, books, pools and counters agree with each other. -/
structure Conserved (e : MatchingEngine) : Prop
    extends OrdersConserved e, LevelsConserved e, CountersConserved e

variable {e : MatchingEngine} {arrival freeOrders freeLevels : List Ptr}
  {rungs : StockLocate → Side → List Rung} {caps : Capacities} {m : Market} {locate : StockLocate}
  {s : Side} {p q lvl : Ptr}

/-! ## Reading them off a layout -/

/-- The order slots in use are those of the live orders. -/
theorem Layout.orderAcquired_iff (h : e.Layout arrival [] freeOrders freeLevels rungs) :
    e.OrderAcquired p ↔ p ∈ arrival := by
  unfold OrderAcquired
  rw [h.orderPool.freeList_eq, h.orderPool.mem_free]
  simp only [List.not_mem_nil, or_false, not_and, not_not]
  exact ⟨fun hp => hp.2 hp.1, fun hp => ⟨h.orderPool.used_lt p (.inl hp), fun _ => hp⟩⟩

/-- The index holds the live orders. -/
theorem Layout.indexed_iff (h : e.Layout arrival [] freeOrders freeLevels rungs) :
    e.Indexed p ↔ p ∈ arrival := by
  constructor
  · rintro (⟨i, hi⟩ | ⟨id, hid⟩)
    · exact (h.index.slot_sound i p hi).1
    · exact (h.index.overflow_sound id p hid).1
  · intro hp
    rcases h.index.complete p hp with hslot | hover
    · exact .inl ⟨_, hslot⟩
    · exact .inr ⟨_, hover⟩

/-- The listed levels are the rungs. -/
theorem Holds.listed_iff (h : e.Holds arrival freeLevels rungs) :
    e.Listed locate s lvl ↔ ∃ g ∈ rungs locate s, g.1 = lvl := by
  rw [Listed, h.levelList_eq, List.mem_map]

/-- The linked orders are those of the queues. -/
theorem Holds.linked_iff (h : e.Holds arrival freeLevels rungs) :
    e.Linked locate s lvl p ↔ ∃ g ∈ rungs locate s, g.1 = lvl ∧ p ∈ g.2 := by
  rw [Linked, h.listed_iff]
  constructor
  · rintro ⟨⟨g, hg, rfl⟩, hp⟩
    exact ⟨g, hg, rfl, h.orderList_eq hg ▸ hp⟩
  · rintro ⟨g, hg, rfl, hp⟩
    exact ⟨⟨g, hg, rfl⟩, (h.orderList_eq hg).symm ▸ hp⟩

/-- A linked order rests in the book of its own locate and side. -/
theorem Holds.mem_of_linked (h : e.Holds arrival freeLevels rungs) (hp : e.Linked locate s lvl p) :
    p ∈ arrival ∧ (e.orders p).locate = locate ∧ (e.orders p).side = s := by
  obtain ⟨g, hg, rfl, hmem⟩ := h.linked_iff.mp hp
  obtain ⟨hrest, hside⟩ := (h.books locate).mem_of_rung hg hmem
  obtain ⟨harrival, hlocate⟩ := List.mem_filter.mp hrest
  exact ⟨harrival, of_decide_eq_true hlocate, hside⟩

/-- A live order is linked on a level of its book. -/
theorem Holds.exists_linked (h : e.Holds arrival freeLevels rungs) (hp : p ∈ arrival) :
    ∃ lvl, e.Linked (e.orders p).locate (e.orders p).side lvl p := by
  obtain ⟨g, hg, hmem⟩ := (h.books (e.orders p).locate).exists_rung (mem_atLocate hp)
  exact ⟨g.1, h.linked_iff.mpr ⟨g, hg, rfl, hmem⟩⟩

/-- No order is in two queues of one side. -/
theorem Holds.level_unique (h : e.Holds arrival freeLevels rungs) {lvl' : Ptr}
    (hp : e.Linked locate s lvl p) (hp' : e.Linked locate s lvl' p) : lvl = lvl' := by
  obtain ⟨g, hg, rfl, hmem⟩ := h.linked_iff.mp hp
  obtain ⟨g', hg', rfl, hmem'⟩ := h.linked_iff.mp hp'
  obtain ⟨l, r, hsplit⟩ := List.append_of_mem hg
  have happart : ∀ x ∈ l ++ r, x.1 ≠ g.1 ∧ ∀ p ∈ x.2, p ∉ g.2 :=
    (h.books locate).apart hsplit
  rw [hsplit] at hg'
  rcases List.mem_append.mp hg' with hl | hr
  · exact absurd hmem ((happart g' (by simp [hl])).2 p hmem')
  · rcases List.mem_cons.mp hr with rfl | hr
    · rfl
    · exact absurd hmem ((happart g' (by simp [hr])).2 p hmem')

/-- The two sides of the books have different levels. -/
theorem Holds.listed_once (h : e.Holds arrival freeLevels rungs) {locate' : StockLocate} {s' : Side}
    (hq : e.Listed locate s q) (hq' : e.Listed locate' s' q) : locate = locate' ∧ s = s' := by
  obtain ⟨g, hg, rfl⟩ := h.listed_iff.mp hq
  obtain ⟨g', hg', he⟩ := h.listed_iff.mp hq'
  have hlocate : locate = locate' := by
    by_contra hne
    exact h.not_onRung hne (onRung_of_mem hg) ⟨s', he ▸ List.mem_map_of_mem hg'⟩
  subst hlocate
  refine ⟨rfl, ?_⟩
  by_contra hne
  exact (h.books locate).side_ne hne hg hg' he.symm

/-- The level slots in use are those of the listed levels. -/
theorem Holds.levelAcquired_iff (h : e.Holds arrival freeLevels rungs) :
    e.LevelAcquired q ↔ ∃ locate s, e.Listed locate s q := by
  have hon : (∃ locate, OnRung (rungs locate) q) ↔ ∃ locate s, e.Listed locate s q := by
    constructor
    · rintro ⟨l, s, hq⟩
      obtain ⟨g, hg, hgq⟩ := List.mem_map.mp hq
      exact ⟨l, s, h.listed_iff.mpr ⟨g, hg, hgq⟩⟩
    · rintro ⟨l, s, hq⟩
      obtain ⟨g, hg, rfl⟩ := h.listed_iff.mp hq
      exact ⟨l, onRung_of_mem hg⟩
  rw [LevelAcquired, h.levelPool.freeList_eq, h.levelPool.mem_free, ← hon]
  constructor
  · rintro ⟨hlt, hnot⟩
    by_contra hunused
    exact hnot ⟨hlt, hunused⟩
  · exact fun hused => ⟨h.levelPool.used_lt q hused, fun hc => hc.2 hused⟩

/-! ## Sums over the books -/

/-- Every order is at one locate. -/
theorem sum_length_atLocate (data : Ptr → OrderData) (resting : List Ptr) :
    ∑ locate, (atLocate data locate resting).length = resting.length := by
  induction resting with
  | nil => simp [atLocate]
  | cons p ps ih =>
      have hcons : ∀ locate, (atLocate data locate (p :: ps)).length =
          (atLocate data locate ps).length + if (data p).locate = locate then 1 else 0 := by
        intro locate
        unfold atLocate
        by_cases hp : (data p).locate = locate <;> simp [hp]
      simp only [hcons, Finset.sum_add_distrib, ih, Finset.sum_ite_eq, Finset.mem_univ, if_true,
        List.length_cons]

/-- The order counter of one book. -/
theorem Layout.liveOrderCount_eq (h : e.Layout arrival [] freeOrders freeLevels rungs)
    (locate : StockLocate) : (e.bookAt locate).liveOrderCount.toNat =
      (atLocate (orderData e.orders) locate arrival).length := by
  have hle : (atLocate (orderData e.orders) locate arrival).length ≤ arrival.length :=
    List.length_filter_le _ _
  have hslots := h.orderSlots
  have hlt := e.orderPool.capacity.toNat_lt
  rw [(h.holds.books locate).liveOrderCount, UInt64.toNat_ofNat']
  exact Nat.mod_eq_of_lt (by omega)

/-- The index counts the live orders. -/
theorem Layout.count_eq (h : e.Layout arrival [] freeOrders freeLevels rungs) :
    e.orderIndex.count.toNat = arrival.length := by
  have hslots := h.orderSlots
  have hlt := e.orderPool.capacity.toNat_lt
  rw [h.index.count_eq, UInt64.toNat_ofNat']
  exact Nat.mod_eq_of_lt (by omega)

/-- One book has no more levels than all. -/
theorem levelsAt_le_levelCount (live : List OrderData) (locate : StockLocate) :
    levelsAt live locate ≤ levelCount live :=
  Finset.single_le_sum (f := levelsAt live) (fun _ _ => Nat.zero_le _) (Finset.mem_univ locate)

/-! ## The invariant -/

/-- Every order slot is in one place. -/
theorem Layout.ordersConserved (h : e.Layout arrival [] freeOrders freeLevels rungs) :
    e.OrdersConserved where
  indexed_iff p := by rw [h.indexed_iff, h.orderAcquired_iff]
  linked_iff p := by
    rw [h.orderAcquired_iff]
    constructor
    · rintro ⟨locate, s, lvl, hp⟩
      exact (h.holds.mem_of_linked hp).1
    · intro hp
      obtain ⟨lvl, hlinked⟩ := h.holds.exists_linked hp
      exact ⟨_, _, lvl, hlinked⟩
  linked_once hp hp' := by
    obtain ⟨_, hlocate, hside⟩ := h.holds.mem_of_linked hp
    obtain ⟨_, hlocate', hside'⟩ := h.holds.mem_of_linked hp'
    obtain rfl := hlocate.symm.trans hlocate'
    obtain rfl := hside.symm.trans hside'
    exact ⟨rfl, rfl, h.holds.level_unique hp hp'⟩
  queue_nodup hq := by
    obtain ⟨g, hg, rfl⟩ := h.holds.listed_iff.mp hq
    rw [h.holds.orderList_eq hg]
    exact (((h.holds.books _).sides _).queues g hg).linked.nodup
  home hp := (h.holds.mem_of_linked hp).2.1
  slot_id hi := (h.index.slot_sound _ _ hi).2.symm
  overflow_id hid := (h.index.overflow_sound _ _ hid).2.symm
  indexed_once hi hid := by
    obtain ⟨hmem, hslot⟩ := h.index.slot_sound _ _ hi
    have hown := (h.index.overflow_sound _ _ hid).2
    rw [← hslot] at hi
    have hnone := h.index.exclusive _ hi
    rw [hown, hid] at hnone
    cases hnone
  find_own p hp := h.index.find_some.mpr ⟨h.orderAcquired_iff.mp hp, rfl⟩
  freeOrders_nodup := by
    rw [h.orderPool.freeList_eq]
    exact h.orderPool.nodup
  free_order p hp := by
    have hnot : ¬ e.OrderAcquired p := fun hacquired => hacquired.2 hp
    rw [h.orderAcquired_iff] at hnot
    exact ⟨fun hi => hnot (h.indexed_iff.mp hi), fun _ _ _ hlinked =>
      hnot (h.holds.mem_of_linked hlinked).1⟩

/-- Every level slot is in one place. -/
theorem Holds.levelsConserved (h : e.Holds arrival freeLevels rungs) : e.LevelsConserved where
  listed_iff q := h.levelAcquired_iff.symm
  listed_once := h.listed_once
  levels_nodup locate s := by
    have hthreads := ((h.books locate).sides s).toThreads
    rw [h.levelList_eq]
    exact hthreads.linked.nodup
  freeLevels_nodup := by
    rw [h.levelPool.freeList_eq]
    exact h.levelPool.nodup
  free_level q hq locate s hlisted := (h.levelAcquired_iff.mpr ⟨locate, s, hlisted⟩).2 hq

/-- The counters say how many slots are in use. -/
theorem Shows.countersConserved (h : e.Shows caps m arrival [] freeOrders freeLevels rungs)
    (hcounts : m.Counts) : e.CountersConserved := by
  have horders : e.stats.liveOrders = arrival.length := by
    rw [← h.stats, hcounts.liveOrders, h.live, List.length_map]
  have hlevels : e.stats.liveLevels = levelCount m.live := by
    rw [← h.stats, hcounts.liveLevels]
  have hbooks := h.refines.liveLevels_eq
  have hslots := h.orderSlots
  have hlevelSlots := h.holds.levelCount_eq
  rw [← h.live] at hlevelSlots
  simp only [List.length_nil] at hslots
  refine ⟨?_, ?_, ?_, ?_, ?_, fun {id o} hfind => ?_, fun locate => ⟨?_, ?_⟩⟩
  · rw [horders, h.toLayout.count_eq]
  · rw [horders, h.orderPool.freeCount_eq]
    omega
  · rw [horders, ← sum_length_atLocate (orderData e.orders) arrival]
    exact Finset.sum_congr rfl fun l _ => (h.toLayout.liveOrderCount_eq l).symm
  · rw [hlevels, h.holds.levelPool.freeCount_eq]
    omega
  · rw [hlevels]
    exact Finset.sum_congr rfl fun l _ => (hbooks l).symm
  · obtain ⟨ho, -, -⟩ := h.find_some hfind
    obtain ⟨lvl, hlinked⟩ := h.holds.exists_linked ho
    obtain ⟨g, hg, -⟩ := h.holds.linked_iff.mp hlinked
    have hpos : 0 < levelsAt m.live (e.orders o).locate := by
      rw [← h.levelTotal]
      have hlen := List.length_pos_of_mem hg
      unfold ItchParser.levelTotal
      cases hs : (e.orders o).side <;> rw [hs] at hlen <;> omega
    rw [horders, hlevels]
    exact ⟨List.length_pos_of_mem ho, hpos.trans_le (levelsAt_le_levelCount _ _)⟩
  · rw [(h.holds.forEachOrder_perm locate).length_eq, horders]
    exact List.length_filter_le _ _
  · rw [hbooks, hlevels]
    exact levelsAt_le_levelCount _ _

/-- An engine that stands for a market with the right counters conserves everything. -/
theorem Refines.conserved (h : e.Refines caps m) (hcounts : m.Counts) : e.Conserved := by
  obtain ⟨_, _, _, _, h⟩ := h
  exact ⟨h.toLayout.ordersConserved, h.holds.levelsConserved, h.countersConserved hcounts⟩

/-- Everything is conserved in every state that calls reach from a fresh engine, with the pools
exhausted or not. -/
theorem conserved_after (oc lc : UInt64) (cs : List Call) (hcap : oc.toNat < 4294967296)
    (hroomy : ∀ pre, pre <+: cs → (after oc lc pre).Roomy) : (after oc lc cs).Conserved :=
  (after_refines oc lc cs hcap hroomy).conserved (Market.counts_after _ cs)

/-- A session with every kind of order event. -/
theorem conserved_after_sample : (after 4 4 sampleSession).Conserved :=
  conserved_after 4 4 sampleSession (by decide) fun pre _ => sampleSession_roomy pre

end MatchingEngine
end ItchParser
