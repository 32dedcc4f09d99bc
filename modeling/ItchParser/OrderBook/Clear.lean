import ItchParser.OrderBook.Update

/-!
# Traversals and `clear_levels`

The traversals of a book visit its levels and orders in list order. `clear_levels` releases every
level of the book and leaves a book like a new one. It reads the level memory only, because its
caller has already released the orders.
-/

namespace ItchParser

open Intrusive Ladder OrderBook PriceLevel

namespace BookState

variable {st : BookState} {s : Side} {resting : List Ptr} {rungs : Side → List Rung} {g : Rung}
  {free : List Ptr} {used : Ptr → Prop} {orders : Ptr → Order}

/-! ## Traversals -/

/-- The traversal of a side passes its rungs. -/
theorem levelList_eq {rs : List Rung} (h : (st.book.side s).Threads orders st.levels s rs) :
    st.levelList s = rs.map Prod.fst := by
  rw [levelList, h.best]
  exact h.linked.walk_eq (length_le_maxNodes h.linked.nodup)

/-- The traversal of a queue passes its orders. -/
theorem orderList_eq (h : st.book.Represents st.orders st.levels resting rungs)
    (hg : g ∈ rungs s) : st.orderList g.1 = g.2 := by
  have hqueue := (h.sides s).queues g hg
  rw [orderList, hqueue.head]
  exact hqueue.linked.walk_eq (length_le_maxNodes hqueue.linked.nodup)

/-- The orders of one side in traversal order. -/
theorem flatMap_orderList (h : st.book.Represents st.orders st.levels resting rungs) (s : Side) :
    (st.levelList s).flatMap st.orderList = (rungs s).flatMap Prod.snd := by
  rw [levelList_eq (h.sides s).toThreads, List.flatMap_map]
  exact List.flatMap_congr fun g hg => orderList_eq h hg

/-- `for_each_order` visits every resting order exactly once. -/
theorem forEachOrder_perm (h : st.book.Represents st.orders st.levels resting rungs) :
    st.forEachOrder.Perm resting := by
  have hbuy : (st.levelList .buy).flatMap st.orderList |>.Perm (onSide st.orders .buy resting) := by
    rw [flatMap_orderList h]
    exact (h.sides .buy).orders_perm
  have hsell : (st.levelList .sell).flatMap st.orderList |>.Perm
      (onSide st.orders .sell resting) := by
    rw [flatMap_orderList h]
    exact (h.sides .sell).orders_perm
  have hsplit : onSide st.orders .sell resting =
      resting.filter fun p => !decide ((st.orders p).side = .buy) := by
    refine List.filter_congr fun p _ => ?_
    cases (st.orders p).side <;> rfl
  refine (hbuy.append hsell).trans ?_
  rw [hsplit]
  exact List.filter_append_perm _ _

/-! ## Releasing the levels -/

/-- The release loop puts the levels of one side on the free list. -/
theorem releaseLevels_represents {pool : MemoryPool PriceLevel} {cursor : Option Ptr}
    {xs : List Ptr} {fuel : Nat} (hpool : pool.Represents free used)
    (hchain : Chain (fun p => (pool.storage p).nextLevel) cursor xs) (hnodup : xs.Nodup)
    (hused : ∀ p ∈ xs, used p) (hfuel : xs.length ≤ fuel) :
    (releaseLevels fuel cursor pool).Represents (xs.reverse ++ free)
        (fun q => used q ∧ q ∉ xs) ∧
      (releaseLevels fuel cursor pool).capacity = pool.capacity ∧
      ∀ q, q ∉ xs → (releaseLevels fuel cursor pool).storage q = pool.storage q := by
  induction xs generalizing pool free used cursor fuel with
  | nil =>
      obtain rfl : cursor = none := hchain
      have hdone : releaseLevels fuel none pool = pool := by cases fuel <;> rfl
      rw [hdone]
      exact ⟨by simpa using hpool, rfl, fun _ _ => rfl⟩
  | cons x xs ih =>
      obtain ⟨rfl, hrest⟩ := hchain
      obtain ⟨hx, hnodup'⟩ := List.nodup_cons.mp hnodup
      cases fuel with
      | zero => simp at hfuel
      | succ fuel =>
          have hsame : ∀ q, q ≠ x → (pool.release (some x)).storage q = pool.storage q :=
            fun q hq => Function.update_of_ne hq _ _
          have hchain' : Chain (fun p => ((pool.release (some x)).storage p).nextLevel)
              ((pool.storage x).nextLevel) xs := by
            refine hrest.congr fun p hp => ?_
            rw [hsame p fun he => hx (he ▸ hp)]
          obtain ⟨hrep, hcap, hframe⟩ := ih (hpool.released (hused x (by simp))) hchain' hnodup'
            (fun p hp => ⟨hused p (by simp [hp]), fun he => hx (he ▸ hp)⟩) (by simpa using hfuel)
          rw [releaseLevels]
          refine ⟨?_, hcap, fun q hq => ?_⟩
          · rw [List.reverse_cons, List.append_assoc, List.singleton_append]
            refine hrep.congr_used fun q => ?_
            rw [List.mem_cons, not_or, and_assoc]
          · rw [List.mem_cons, not_or] at hq
            rw [hframe q hq.2, hsame q hq.1]

/-- `clear_levels` empties the book and releases its levels. -/
theorem clearLevels_update (hthreads : ∀ s, (st.book.side s).Threads orders st.levels s (rungs s))
    (hpool : st.levelPool.Represents free used) (hused : ∀ q, OnRung rungs q → used q) :
    st.clearLevels.book = OrderBook.create ∧ st.clearLevels.orders = st.orders ∧
      (∃ free', st.clearLevels.levelPool.Represents free' (fun q => used q ∧ ¬ OnRung rungs q) ∧
        free'.length = free.length + levelTotal rungs) ∧
      st.clearLevels.levelPool.capacity = st.levelPool.capacity ∧
      ∀ q, used q → ¬ OnRung rungs q → st.clearLevels.levels q = st.levels q := by
  have hchain : ∀ s, Chain (fun p => (st.levels p).nextLevel) (st.book.side s).best
      ((rungs s).map Prod.fst) := fun s => by
    rw [(hthreads s).best]
    exact (hthreads s).linked.forward.chain
  have hnodup : ∀ s, ((rungs s).map Prod.fst).Nodup := fun s => (hthreads s).linked.nodup
  have hdisjoint : ∀ p ∈ (rungs .sell).map Prod.fst, p ∉ (rungs .buy).map Prod.fst := by
    intro p hsell hbuy
    obtain ⟨g, hg, rfl⟩ := List.mem_map.mp hsell
    obtain ⟨g', hg', he⟩ := List.mem_map.mp hbuy
    have hside := (hthreads .sell).side g hg
    rw [← he, (hthreads .buy).side g' hg'] at hside
    cases hside
  obtain ⟨hrep, hcap, hframe⟩ := releaseLevels_represents hpool (hchain .buy) (hnodup .buy)
    (fun p hp => hused p ⟨.buy, hp⟩) (length_le_maxNodes (hnodup .buy))
  -- releasing the buy levels has not touched the links of the sell levels
  obtain ⟨hrep', hcap', hframe'⟩ := releaseLevels_represents hrep
    ((hchain .sell).congr fun p hp => by rw [hframe p (hdisjoint p hp)]) (hnodup .sell)
    (fun p hp => ⟨hused p ⟨.sell, hp⟩, hdisjoint p hp⟩) (length_le_maxNodes (hnodup .sell))
  have honrung : ∀ q, ¬ OnRung rungs q ↔
      q ∉ (rungs .buy).map Prod.fst ∧ q ∉ (rungs .sell).map Prod.fst := by
    intro q
    unfold OnRung
    constructor
    · exact fun hq => ⟨fun hb => hq ⟨.buy, hb⟩, fun hs => hq ⟨.sell, hs⟩⟩
    · rintro ⟨hb, hs⟩ ⟨s, hq⟩
      cases s
      · exact hb hq
      · exact hs hq
  refine ⟨rfl, rfl, ⟨_, hrep'.congr_used fun q => ?_, ?_⟩, hcap'.trans hcap, fun q _ hq => ?_⟩
  · rw [honrung, and_assoc]
  · simp only [List.length_append, List.length_reverse, List.length_map, levelTotal]
    omega
  · obtain ⟨hb, hs⟩ := (honrung q).mp hq
    exact (hframe' q hs).trans (hframe q hb)

end BookState
end ItchParser
