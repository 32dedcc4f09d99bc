import ItchParser.Engine.Refines
import ItchParser.OrderBook.Clear

/-!
# The closing cross refines its step

A closing cross erases and releases the orders of one book one by one, while the book still links
them, and clears the book afterwards. `Released` says what the loop does; the book is not looked at
before `clear_levels`, which does not read the orders.
-/

namespace ItchParser

open Ladder OrderBook Market

namespace MatchingEngine

variable {e e' : MatchingEngine} {caps : Capacities} {m : Market}
  {arrival held freeOrders freeLevels xs : List Ptr} {used : Ptr → Prop}
  {rungs : StockLocate → Side → List Rung} {locate : StockLocate} {b : OrderBook} {o p : Ptr}

/-- The orders `xs` are erased from the index and released. -/
structure Released (e e' : MatchingEngine) (xs arrival freeOrders : List Ptr) (used : Ptr → Prop) :
    Prop where
  instruments : e'.instruments = e.instruments
  levelPool : e'.levelPool = e.levelPool
  stats : e'.stats = e.stats
  capacity : e'.orderPool.capacity = e.orderPool.capacity
  frame : ∀ p, p ∉ xs → e'.orders p = e.orders p
  index : e'.orderIndex.Represents e'.orders (arrival.filter fun p => p ∉ xs)
  orderPool : e'.orderPool.Represents (xs.reverse ++ freeOrders) fun p => used p ∧ p ∉ xs

/-- The loop over the snapshot. -/
theorem released_releaseSnapshot (hindex : e.orderIndex.Represents e.orders arrival)
    (hpool : e.orderPool.Represents freeOrders used) (hnodup : xs.Nodup)
    (hmem : ∀ p ∈ xs, p ∈ arrival) (hused : ∀ p ∈ xs, used p) :
    Released e (e.releaseSnapshot xs) xs arrival freeOrders used := by
  induction xs generalizing e arrival freeOrders used with
  | nil =>
      refine ⟨rfl, rfl, rfl, rfl, fun _ _ => rfl, ?_, hpool.congr_used fun p => by simp⟩
      rw [List.filter_eq_self.mpr fun p _ => by simp]
      exact hindex
  | cons o xs ih =>
      obtain ⟨ho, hnodup'⟩ := List.nodup_cons.mp hnodup
      obtain ⟨e₁, he₁⟩ : ∃ e₁, e₁ = (e.eraseOrder (e.orders o).orderId).releaseOrder o := ⟨_, rfl⟩
      have hframe₁ : ∀ p, p ≠ o → e₁.orders p = e.orders p := by
        rw [he₁]
        exact fun p hp => Function.update_of_ne hp _ _
      -- releasing overwrites the id of `o` only, which has left the index by then
      have hindex₁ : e₁.orderIndex.Represents e₁.orders (arrival.filter fun p => p ≠ o) := by
        have herased := hindex.erase (hmem o (by simp)) rfl
        have hsame : e₁.orderIndex = (e.orderIndex.erase e.orders (e.orders o).orderId).1 := by
          rw [he₁]
          rfl
        rw [hsame]
        exact herased.congr fun p hp => by
          rw [hframe₁ p (by simpa using (List.mem_filter.mp hp).2)]
      have hpool₁ : e₁.orderPool.Represents (o :: freeOrders) fun p => used p ∧ p ≠ o := by
        rw [he₁]
        exact hpool.released (hused o (by simp))
      have hrest := ih hindex₁ hpool₁ hnodup'
        (fun p hp => List.mem_filter.mpr ⟨hmem p (by simp [hp]), by
          simpa using ne_of_mem_of_not_mem hp ho⟩)
        (fun p hp => ⟨hused p (by simp [hp]), ne_of_mem_of_not_mem hp ho⟩)
      rw [show e.releaseSnapshot (o :: xs) = e₁.releaseSnapshot xs by rw [he₁]; rfl]
      refine ⟨hrest.instruments.trans (by rw [he₁]; rfl), hrest.levelPool.trans (by rw [he₁]; rfl),
        hrest.stats.trans (by rw [he₁]; rfl), hrest.capacity.trans (by rw [he₁]; rfl),
        fun p hp => ?_, ?_, ?_⟩
      · rw [List.mem_cons, not_or] at hp
        rw [hrest.frame p hp.2, hframe₁ p hp.1]
      · have hfilter : ((arrival.filter fun p => p ≠ o).filter fun p => p ∉ xs) =
            arrival.filter fun p => p ∉ o :: xs := by
          rw [List.filter_filter]
          refine List.filter_congr fun p _ => ?_
          simp only [List.mem_cons, not_or, ne_eq, Bool.decide_and, Bool.and_comm]
        rw [← hfilter]
        exact hrest.index
      · rw [List.reverse_cons, List.append_assoc, List.singleton_append]
        refine hrest.orderPool.congr_used fun p => ?_
        simp only [List.mem_cons, not_or]
        tauto

/-- The counter that the closing cross subtracts from the live levels. -/
theorem Holds.liveLevels (h : e.Holds arrival freeLevels rungs) (locate : StockLocate) :
    (e.bookAt locate).liveLevels.toNat = levelTotal (rungs locate) := by
  have hcount : ∀ s, ((e.bookAt locate).side s).levelCount =
      UInt64.ofNat (rungs locate s).length := fun s => ((h.books locate).sides s).levelCount
  have hle : levelTotal (rungs locate) ≤ ∑ l, levelTotal (rungs l) :=
    Finset.single_le_sum (f := fun l => levelTotal (rungs l)) (fun _ _ => Nat.zero_le _)
      (Finset.mem_univ locate)
  have hslots := h.levelSlots
  have hlt := e.levelPool.capacity.toNat_lt
  rw [OrderBook.liveLevels, hcount, hcount, ← UInt64.ofNat_add, UInt64.toNat_ofNat']
  exact Nat.mod_eq_of_lt (show levelTotal (rungs locate) < _ by omega)

/-- The orders of other locates. -/
theorem filter_not_mem_atLocate {orders : Ptr → Order}
    (hperm : xs.Perm (atLocate (orderData orders) locate arrival)) :
    (arrival.filter fun p => p ∉ xs) = arrival.filter fun p => (orders p).locate ≠ locate := by
  refine List.filter_congr fun p hp => ?_
  have hmem := hperm.mem_iff (a := p)
  rw [atLocate, List.mem_filter, decide_eq_true_eq] at hmem
  rw [decide_eq_decide, hmem]
  exact not_congr (and_iff_right hp)

/-- The orders of one locate, and the rest. -/
theorem length_filter_not_mem {orders : Ptr → Order}
    (hperm : xs.Perm (atLocate (orderData orders) locate arrival)) :
    (arrival.filter fun p => p ∉ xs).length + xs.length = arrival.length := by
  have hsplit := (List.filter_append_perm (fun p => decide (p ∉ xs)) arrival).length_eq
  have hin : (arrival.filter fun p => !decide (p ∉ xs)) =
      atLocate (orderData orders) locate arrival := by
    refine List.filter_congr fun p hp => ?_
    have hmem := hperm.mem_iff (a := p)
    rw [atLocate, List.mem_filter] at hmem
    simp only [hp, true_and] at hmem
    simp only [hmem, decide_not, Bool.not_not, Bool.decide_eq_true]
  rw [List.length_append, hin, ← hperm.length_eq] at hsplit
  exact hsplit

/-- `clear_levels` after the loop: the book is empty and its levels are free. -/
theorem Released.clearLevels (hreleased : Released e e' xs arrival freeOrders used)
    (h : e.Layout arrival held freeOrders freeLevels rungs)
    (hbook : e.instruments.book locate = some b)
    (hperm : xs.Perm (atLocate (orderData e.orders) locate arrival)) :
    (e'.bookState b).clearLevels.orders = e'.orders ∧
      ∃ free', (e.bookState b).Update (e'.bookState b).clearLevels
        (fun q => ∃ l, OnRung (rungs l) q) freeLevels free'
        (atLocate (orderData e.orders) locate arrival) [] (rungs locate) (fun _ => [])
        (orderData e'.orders) := by
  have hrepresents := h.book hbook
  have hthreads : ∀ s, ((e'.bookState b).book.side s).Threads e.orders (e'.bookState b).levels s
      (rungs locate s) := by
    intro s
    show (b.side s).Threads e.orders e'.levelPool.storage s (rungs locate s)
    rw [hreleased.levelPool]
    exact (hrepresents.sides s).toThreads
  have hlevels : (e'.bookState b).levelPool.Represents freeLevels
      fun q => ∃ l, OnRung (rungs l) q := by
    show e'.levelPool.Represents freeLevels _
    rw [hreleased.levelPool]
    exact h.holds.levelPool
  obtain ⟨hcleared, horders, ⟨free', hpool, hlength⟩, hcapacity, hframe⟩ :=
    BookState.clearLevels_update hthreads hlevels fun q hq => ⟨_, hq⟩
  have hempty : ∀ q, ¬ OnRung (fun _ => [] : Side → List Rung) q := by
    rintro q ⟨s, hq⟩
    cases hq
  refine ⟨horders, free', ?_, hpool.congr_used fun q => ?_, ?_, ?_, ?_, fun q hq _ => ?_,
    fun q hq hq' => ?_⟩
  · rw [hcleared]
    exact OrderBook.create_represents _ _
  · exact ⟨fun hq => hq.resolve_right (hempty q), .inl⟩
  · rw [hcapacity]
    exact congrArg MemoryPool.capacity hreleased.levelPool
  · rw [horders]
    rfl
  · have hnone : ItchParser.levelTotal (fun _ => []) = 0 := rfl
    omega
  · rw [horders]
    exact hreleased.frame q fun hmem => hq (hperm.mem_iff.mp hmem)
  · rw [hframe q hq hq']
    exact congrFun (congrArg MemoryPool.storage hreleased.levelPool) q

/-- The books after the closing cross: the orders of the locate are gone. -/
theorem Released.holds (hreleased : Released e e' xs arrival freeOrders used)
    (h : e.Layout arrival held freeOrders freeLevels rungs)
    (hbook : e.instruments.book locate = some b)
    (hperm : xs.Perm (atLocate (orderData e.orders) locate arrival)) :
    ∃ free', (e'.putBook locate (e'.bookState b).clearLevels).Holds
      (arrival.filter fun p => p ∉ xs) free' (Function.update rungs locate fun _ => []) := by
  obtain ⟨horders, free', hupdate⟩ := hreleased.clearLevels h hbook hperm
  have hat : ∀ l, atLocate (orderData e'.orders) l (arrival.filter fun p => p ∉ xs) =
      (atLocate (orderData e.orders) l arrival).filter fun p => p ∉ xs := by
    intro l
    unfold atLocate
    rw [List.filter_congr fun p hp => by
      rw [orderData, hreleased.frame p (by simpa using (List.mem_filter.mp hp).2)],
      List.filter_filter, List.filter_filter]
    exact List.filter_congr fun p _ => Bool.and_comm _ _
  have hholds : (e.putBook locate (e'.bookState b).clearLevels).Holds
      (arrival.filter fun p => p ∉ xs) free' (Function.update rungs locate fun _ => []) := by
    refine h.holds.putBook hbook hupdate ?_ fun l hl => ?_
    · rw [hat]
      refine List.filter_eq_nil_iff.mpr fun p hp => ?_
      simpa using hperm.mem_iff.mpr hp
    · rw [hat]
      refine List.filter_eq_self.mpr fun p hp => ?_
      have hpl : (e.orders p).locate = l := of_decide_eq_true (List.mem_filter.mp hp).2
      have hnot : p ∉ xs := fun hmem => hl (hpl.symm.trans
        (of_decide_eq_true (List.mem_filter.mp (hperm.mem_iff.mp hmem)).2))
      simpa using hnot
  refine ⟨free', hholds.congr (fun l => ?_) rfl fun _ _ => rfl⟩
  show ((e'.instruments.setBook locate _).book l).getD _ = _
  rw [hreleased.instruments]
  rfl

/-- The slots after the closing cross: those of the orders that went are free. -/
theorem Released.layout
    (hreleased : Released e e' xs arrival freeOrders fun p => p ∈ arrival ∨ p ∈ [])
    (h : e.Layout arrival [] freeOrders freeLevels rungs)
    (hbook : e.instruments.book locate = some b)
    (hperm : xs.Perm (atLocate (orderData e.orders) locate arrival)) :
    ∃ free', (e'.putBook locate (e'.bookState b).clearLevels).Layout
      (arrival.filter fun p => p ∉ xs) [] (xs.reverse ++ freeOrders) free'
      (Function.update rungs locate fun _ => []) := by
  obtain ⟨horders, -⟩ := hreleased.clearLevels h hbook hperm
  obtain ⟨free', hholds⟩ := hreleased.holds h hbook hperm
  refine ⟨free', hholds, ?_, by simp, ?_, ?_, fun p hp => ?_⟩
  · show ({ e'.orderPool with storage := (e'.bookState b).clearLevels.orders } :
      MemoryPool Order).Represents _ _
    rw [horders]
    refine hreleased.orderPool.congr_used fun p => ?_
    simp
  · -- the released slots are as many as the orders that went
    have hlen := length_filter_not_mem hperm
    have hslots := h.orderSlots
    show _ = e'.orderPool.capacity.toNat
    rw [hreleased.capacity, ← hslots, List.length_append, List.length_reverse]
    omega
  · exact hreleased.index.congr fun p _ => congrArg (fun mem => (mem p).orderId) horders
  · obtain ⟨hmem, hout⟩ := List.mem_filter.mp hp
    refine putBook_book_isSome _ ?_
    show (e'.instruments.book ((e'.bookState b).clearLevels.orders p).locate).isSome
    rw [horders, hreleased.frame p (by simpa using hout), hreleased.instruments]
    exact h.homes p hmem

/-- A closing cross on a book: its orders are gone from the live slots, and the other orders are
where they were. -/
theorem Shows.closeBook (h : e.Shows caps m arrival [] freeOrders freeLevels rungs)
    (hbook : e.instruments.book locate = some b) :
    ∃ free', (e.closeBook locate b).Shows caps
      ((m.clear locate).count fun s =>
        s.dropBook (m.live.filter fun d => d.locate = locate).length (levelsAt m.live locate))
      (arrival.filter fun p => (e.orders p).locate ≠ locate) []
      ((e.bookState b).forEachOrder.reverse ++ freeOrders) free'
      (Function.update rungs locate fun _ => []) ∧
      ∀ p ∈ arrival, (e.orders p).locate ≠ locate →
        (e.closeBook locate b).orders p = e.orders p := by
  unfold MatchingEngine.closeBook
  simp only
  have hperm := BookState.forEachOrder_perm (h.book hbook)
  obtain ⟨xs, hxs⟩ : ∃ xs, xs = (e.bookState b).forEachOrder := ⟨_, rfl⟩
  rw [← hxs] at hperm ⊢
  have hmem : ∀ p ∈ xs, p ∈ arrival := fun p hp => (List.mem_filter.mp (hperm.mem_iff.mp hp)).1
  have hreleased := released_releaseSnapshot h.index h.orderPool
    (hperm.nodup_iff.mpr (h.nodup.filter _)) hmem fun p hp => .inl (hmem p hp)
  obtain ⟨e₁, he₁⟩ : ∃ e₁, e₁ = e.releaseSnapshot xs := ⟨_, rfl⟩
  rw [← he₁] at hreleased ⊢
  obtain ⟨horders, _, hupdate⟩ := hreleased.clearLevels h.toLayout hbook hperm
  obtain ⟨free', hlayout⟩ := hreleased.layout h.toLayout hbook hperm
  have horders' : (e₁.bookState b).clearLevels.orders = e₁.orders := horders
  have hrest := filter_not_mem_atLocate hperm
  have hstays : ∀ p ∈ arrival.filter (fun p => p ∉ xs), e₁.orders p = e.orders p := fun p hp =>
    hreleased.frame p (by simpa using (List.mem_filter.mp hp).2)
  rw [← hrest]
  refine ⟨free', ⟨hlayout.count fun s => s.dropBook xs.length b.liveLevels.toNat, ?_, ?_, ?_, ?_⟩,
    fun p hp hl => ?_⟩
  · rw [← h.capacities]
    show Capacities.mk e₁.orderPool.capacity.toNat
      (e₁.bookState b).clearLevels.levelPool.capacity.toNat = _
    rw [hreleased.capacity, hupdate.capacity]
    rfl
  · show m.live.filter _ = (arrival.filter fun p => p ∉ xs).map
      (orderData (e₁.bookState b).clearLevels.orders)
    rw [h.live, List.filter_map, hrest, horders']
    refine List.map_congr_left fun p hp => ?_
    rw [orderData, orderData, hstays p (hrest ▸ hp)]
  · funext l
    show m.known l = ((e₁.instruments.setBook locate _).slots l).isSome
    rw [InstrumentMap.setBook_isSome, hreleased.instruments, h.known]
  · -- the counters of the market go by its live orders, those of the engine by the snapshot
    have hcount : (m.live.filter fun d => d.locate = locate).length = xs.length := by
      rw [h.live, List.filter_map, List.length_map, hperm.length_eq]
      rfl
    show (m.stats.dropBook _ _) = e₁.stats.dropBook _ _
    rw [hcount, ← h.levelTotal, ← bookAt_eq hbook, h.holds.liveLevels,
      hreleased.stats, h.stats]
  · show (e₁.bookState b).clearLevels.orders p = e.orders p
    rw [horders']
    exact hstays p (hrest ▸ List.mem_filter.mpr ⟨hp, by simpa using hl⟩)

/-- The closing cross of one locate clears its orders, and other crosses only count. -/
theorem Refines.onCrossTrade (h : e.Refines caps m) (locate : StockLocate) (xtype : CrossType) :
    (e.onCrossTrade locate xtype).Refines caps (m.crossTrade locate xtype) := by
  have hcounted := h.count fun s => { s with crossTrades := s.crossTrades + 1 }
  unfold MatchingEngine.onCrossTrade Market.crossTrade
  by_cases hclosing : xtype ≠ CrossType.Closing
  · rw [if_pos hclosing, if_pos hclosing]
    exact hcounted
  rw [if_neg hclosing, if_neg hclosing]
  obtain ⟨arrival, freeOrders, freeLevels, rungs, hshows⟩ := hcounted
  cases hbook : e.instruments.book locate with
  | some b =>
      simp only [count_instruments, hbook]
      obtain ⟨_, hclosed, -⟩ := hshows.closeBook hbook
      exact hclosed.refines
  | none =>
      simp only [count_instruments, hbook]
      -- without a book there are no orders
      have hnone : ∀ d ∈ m.live, d.locate ≠ locate := by
        intro d hd hl
        have hlive : m.live = _ := hshows.live
        rw [hlive] at hd
        obtain ⟨p, hp, rfl⟩ := List.mem_map.mp hd
        have hhome := hshows.homes p hp
        rw [show ((e.count _).orders p).locate = locate from hl, count_instruments, hbook] at hhome
        cases hhome
      have hlevels : levelsAt m.live locate = 0 := by
        have hside : ∀ s, restingOn m.live locate s = [] := fun s =>
          List.filter_eq_nil_iff.mpr fun d hd => by simp [hnone d hd]
        simp [levelsAt, bookOf, hside]
      have hsame : ((m.count fun s => { s with crossTrades := s.crossTrades + 1 }).clear
          locate).count (fun s => s.dropBook (m.live.filter fun d => d.locate = locate).length
            (levelsAt m.live locate)) =
          m.count fun s => { s with crossTrades := s.crossTrades + 1 } := by
        have hempty : (m.live.filter fun d => d.locate = locate) = [] :=
          List.filter_eq_nil_iff.mpr fun d hd => by simp [hnone d hd]
        have hkeep : (m.live.filter fun d => d.locate ≠ locate) = m.live :=
          List.filter_eq_self.mpr fun d hd => by simpa using hnone d hd
        ext1
        · exact hkeep
        · rfl
        · rw [hempty, hlevels]
          rfl
      rw [show ∀ f : EngineStats → EngineStats, (m.count f).live = m.live from fun _ => rfl, hsame]
      exact hshows.refines

/-- The index after a closing cross: the orders of the locate are gone, the others are in the slots
where they were. -/
theorem Refines.onCrossTrade_find (h : e.Refines caps m) (locate : StockLocate)
    (id : OrderReferenceNumber) (o : Ptr) :
    ((e.onCrossTrade locate CrossType.Closing).findOrder id = some o ↔
      e.findOrder id = some o ∧ (e.orders o).locate ≠ locate) ∧
    ((e.onCrossTrade locate CrossType.Closing).findOrder id = some o →
      (e.onCrossTrade locate CrossType.Closing).orders o = e.orders o) := by
  obtain ⟨arrival, _, _, _, hshows⟩ := h
  have hfind : e.findOrder id = some o ↔ o ∈ arrival ∧ (e.orders o).orderId = id :=
    hshows.index.find_some
  unfold MatchingEngine.onCrossTrade
  simp only [ne_eq, not_true_eq_false, if_false, count_instruments]
  cases hbook : e.instruments.book locate with
  | none =>
      refine ⟨⟨fun hold => ⟨hold, fun hl => ?_⟩, And.left⟩, fun _ => rfl⟩
      have hhome := hshows.homes o (hfind.mp hold).1
      rw [hl, hbook] at hhome
      cases hhome
  | some b =>
      obtain ⟨_, hclosed, hkeeps⟩ :=
        (hshows.count fun s => { s with crossTrades := s.crossTrades + 1 }).closeBook hbook
      simp only
      generalize (e.count _).closeBook locate b = e' at hclosed hkeeps ⊢
      have hfind' : e'.findOrder id = some o ↔ _ ∧ (e'.orders o).orderId = id :=
        hclosed.index.find_some
      simp only [List.mem_filter, decide_eq_true_eq] at hfind'
      refine ⟨?_, fun hnew => ?_⟩
      · refine hfind'.trans ⟨fun hnew => ?_, fun hold => ?_⟩
        · have hsame := hkeeps o hnew.1.1 hnew.1.2
          have hid := (congrArg (OrderData.orderId ·.toOrderData) hsame).symm.trans hnew.2
          exact ⟨hfind.mpr ⟨hnew.1.1, hid⟩, hnew.1.2⟩
        · obtain ⟨ho, hid⟩ := hfind.mp hold.1
          have hsame := hkeeps o ho hold.2
          exact ⟨⟨ho, hold.2⟩, (congrArg (OrderData.orderId ·.toOrderData) hsame).trans hid⟩
      · obtain ⟨⟨ho, hl⟩, -⟩ := hfind'.mp hnew
        exact hkeeps o ho hl

end MatchingEngine
end ItchParser
