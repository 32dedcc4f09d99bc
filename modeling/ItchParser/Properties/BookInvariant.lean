import ItchParser.FlatHashMap.Runs
import ItchParser.OrderBook.Runs

/-!
# The representation invariant of a book

`WellFormed` says in terms of the fields of a book what its level lists, level maps, queues and
counters look like. It holds after every disciplined run of calls.
-/

namespace ItchParser

open Intrusive Ladder Machine OrderBook PriceLevel

namespace BookState

/-- A level of side `s`: its queue is a doubly linked list of orders of its side and price, and its
counters are the exact numbers. -/
structure WellFormedLevel (st : BookState) (s : Side) (lvl : Ptr) : Prop where
  linked : Linked (fun p => (st.orders p).next) (fun p => (st.orders p).prev) (st.orderList lvl)
  head : (st.levels lvl).headOrder = (st.orderList lvl).head?
  tail : (st.levels lvl).tailOrder = (st.orderList lvl).getLast?
  occupied : st.orderList lvl ≠ []
  side : (st.levels lvl).side = s
  order_side : ∀ o ∈ st.orderList lvl, (st.orders o).side = s
  order_price : ∀ o ∈ st.orderList lvl, (st.orders o).priceCents = (st.levels lvl).priceCents
  orderCount : (st.levels lvl).orderCount.toNat = (st.orderList lvl).length
  totalShares : (st.levels lvl).totalShares.toNat = sharesOf st.orders (st.orderList lvl)

/-- One side: its level list is a doubly linked list in strict price order, and its map holds
exactly the levels of the list under their prices. -/
structure WellFormedSide (st : BookState) (s : Side) : Prop where
  linked : Linked (fun p => (st.levels p).nextLevel) (fun p => (st.levels p).prevLevel)
    (st.levelList s)
  best : (st.book.side s).best = (st.levelList s).head?
  sorted : (st.levelList s).Pairwise fun p q =>
    ahead s (st.levels p).priceCents (st.levels q).priceCents
  levelCount : (st.book.side s).levelCount.toNat = (st.levelList s).length
  entries : ∀ px v, (px, v) ∈ (st.book.side s).map.forEach levelLayout ↔
    ∃ lvl ∈ st.levelList s, (st.levels lvl).priceCents = px ∧ v = some lvl
  find : ∀ px lvl, st.book.findLevel s px = some lvl ↔
    lvl ∈ st.levelList s ∧ (st.levels lvl).priceCents = px
  levels : ∀ lvl ∈ st.levelList s, st.WellFormedLevel s lvl

/-- What `execute_order`, `cancel_order` and `remove_order` subtract for the linked order `o` is
there to be subtracted: its shares from the level's total, and one from each count. -/
structure Covered (st : BookState) (o lvl : Ptr) : Prop where
  found : st.book.findLevel (st.orders o).side (st.orders o).priceCents = some lvl
  shares : (st.orders o).sharesRemaining.toNat ≤ (st.levels lvl).totalShares.toNat
  orderCount : 0 < (st.levels lvl).orderCount.toNat
  levelCount : 0 < (st.book.side (st.orders o).side).levelCount.toNat
  liveOrderCount : 0 < st.book.liveOrderCount.toNat

/-- The representation invariant. -/
structure WellFormed (st : BookState) : Prop where
  sides : ∀ s, st.WellFormedSide s
  distinct : st.forEachOrder.Nodup
  liveOrderCount : st.book.liveOrderCount.toNat = st.forEachOrder.length
  covered : ∀ o ∈ st.forEachOrder, ∃ lvl, st.Covered o lvl

variable {st : BookState} {resting free : List Ptr} {rungs : Side → List Rung} {s : Side} {g : Rung}
  {o lvl : Ptr} {px : Price}

/-! ## Levels -/

/-- Fewer than `2^32` orders have fewer than `2^64` shares. -/
theorem sharesOf_le (orders : Ptr → Order) (os : List Ptr) :
    sharesOf orders os ≤ os.length * 4294967295 := by
  induction os with
  | nil => exact Nat.zero_le _
  | cons o os ih =>
      have hlt := (orders o).sharesRemaining.toNat_lt
      rw [sharesOf_cons, List.length_cons, Nat.succ_mul]
      omega

/-- A level of a standing book is well formed. -/
theorem Standing.wellFormedLevel (h : st.Standing resting free rungs) (hbounded : st.Bounded)
    (hlvl : lvl ∈ st.levelList s) : st.WellFormedLevel s lvl := by
  obtain ⟨g, hg, rfl⟩ := h.mem_levelList hlvl
  have hqueue := (h.represents.sides s).queues g hg
  have hlen := h.orders_lt hbounded hg
  have hshares := sharesOf_le st.orders g.2
  have hlist := orderList_eq h.represents hg
  refine ⟨?_, ?_, ?_, ?_, (h.represents.sides s).side g hg, ?_, ?_, ?_, ?_⟩ <;> rw [hlist]
  · exact hqueue.linked
  · exact hqueue.head
  · exact hqueue.tail
  · exact h.rung_ne_nil hg
  · exact fun o ho => (h.represents.mem_of_rung hg ho).2
  · exact fun o ho => (h.represents.sides s).price_eq hg ho
  · rw [hqueue.count, UInt32.toNat_ofNat', Nat.mod_eq_of_lt hlen]
  · rw [hqueue.shares, UInt64.toNat_ofNat', Nat.mod_eq_of_lt (by omega)]

/-! ## Sides -/

/-- A side of a standing book is well formed. -/
theorem Standing.wellFormedSide (h : st.Standing resting free rungs) (hbounded : st.Bounded)
    (s : Side) : st.WellFormedSide s := by
  have hside := h.represents.sides s
  refine ⟨?_, ?_, h.sorted s, h.levelCount_eq hbounded s, fun px v => ?_,
    h.findLevel_iff hbounded s, fun lvl hlvl => h.wellFormedLevel hbounded hlvl⟩
  · rw [h.levelList_eq]
    exact hside.linked
  · rw [h.levelList_eq]
    exact hside.best
  · rw [(hside.map (h.fits hbounded s)).mem_forEach]
    exact h.levelAt_iff s px v

/-! ## Books -/

/-- An order has no more shares than its level. -/
theorem le_sharesOf {orders : Ptr → Order} {os : List Ptr} (ho : o ∈ os) :
    (orders o).sharesRemaining.toNat ≤ sharesOf orders os := by
  obtain ⟨l, r, rfl⟩ := List.append_of_mem ho
  rw [sharesOf_append, sharesOf_cons]
  omega

/-- A resting order has its level. -/
theorem Standing.covered (h : st.Standing resting free rungs) (hbounded : st.Bounded)
    (ho : o ∈ st.forEachOrder) : ∃ lvl, st.Covered o lvl := by
  obtain ⟨g, hg, hog⟩ := h.represents.exists_rung (h.mem_forEachOrder.mp ho)
  have hlvl : g.1 ∈ st.levelList (st.orders o).side := by
    rw [h.levelList_eq]
    exact List.mem_map_of_mem hg
  have hlevel := h.wellFormedLevel hbounded hlvl
  have horder : o ∈ st.orderList g.1 := by rwa [orderList_eq h.represents hg]
  refine ⟨g.1, ?_, ?_, ?_, ?_, ?_⟩
  · exact (h.findLevel_iff hbounded _ _ _).mpr ⟨hlvl, (hlevel.order_price o horder).symm⟩
  · rw [hlevel.totalShares]
    exact le_sharesOf horder
  · rw [hlevel.orderCount]
    exact List.length_pos_of_mem horder
  · rw [h.levelCount_eq hbounded]
    exact List.length_pos_of_mem hlvl
  · rw [h.liveOrderCount_eq]
    exact List.length_pos_of_mem ho

/-- A standing book is well formed. -/
theorem Standing.wellFormed (h : st.Standing resting free rungs) (hbounded : st.Bounded) :
    st.WellFormed :=
  ⟨h.wellFormedSide hbounded, (forEachOrder_perm h.represents).nodup_iff.mpr h.represents.nodup,
    h.liveOrderCount_eq, fun _ ho => h.covered hbounded ho⟩

/-- A book is well formed after every run of calls that keep the rules, whatever the capacity of the
level pool, as long as no side has more levels than its map can hold and no level `2^32` orders. -/
theorem wellFormed_after (orders : Ptr → Order) (capacity : UInt64) (calls : List BookCall)
    (hcalls : Disciplined (start orders capacity) calls) :
    (run step (start orders capacity) calls).WellFormed := by
  obtain ⟨⟨resting, free, rungs, hstands⟩, hbounded⟩ := hcalls.standing
  exact hstands.wellFormed hbounded

/-- Buy orders at rising prices. -/
def risingBids (p : Ptr) : Order :=
  Order.create 0 1 (UInt32.ofNat (1000000 + 100 * p.val)) 100 .buy 1 MPID.blank

/-- With two level slots the third order is turned away until a fill has retired a level. -/
theorem wellFormed_after_sample :
    (run step (start risingBids 2) [.add 0, .add 1, .add 2, .execute 0 30, .cancel 0 100, .add 2,
      .write 0 (risingBids 2), .add 0, .remove 2]).WellFormed :=
  wellFormed_after risingBids 2 _ (by decide +kernel)

end BookState
end ItchParser
