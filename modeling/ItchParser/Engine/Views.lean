import ItchParser.Engine.Closing
import ItchParser.Engine.Handlers

/-!
# What can be seen of an engine

A view of a book is what a traversal of its level lists and queues reads. An engine that stands for
a market shows the market's books, and its index finds the market's orders.
-/

namespace ItchParser

open Ladder OrderBook Market

/-- A price level with the orders of its queue, front first. -/
structure LevelView where
  price : Price
  totalShares : UInt64
  orderCount : UInt32
  orders : List OrderData
  deriving DecidableEq

/-- The level that a group of orders should look like. -/
def LevelView.ofGroup (g : Price × List OrderData) : LevelView :=
  ⟨g.1, UInt64.ofNat (g.2.map fun d => d.sharesRemaining.toNat).sum, UInt32.ofNat g.2.length, g.2⟩

namespace MatchingEngine

/-- One side of one book, best level first. A missing book counts as empty. -/
def bookView (e : MatchingEngine) (locate : StockLocate) (s : Side) : List LevelView :=
  let st := e.bookState (e.bookAt locate)
  (st.levelList s).map fun lvl =>
    ⟨(st.levels lvl).priceCents, (st.levels lvl).totalShares, (st.levels lvl).orderCount,
      (st.orderList lvl).map fun p => (st.orders p).toOrderData⟩

/-- The order that the index finds for an id. -/
def orderOf (e : MatchingEngine) (id : OrderReferenceNumber) : Option OrderData :=
  (e.findOrder id).map fun p => (e.orders p).toOrderData

/-- No side of a book has more levels than its map has room for. -/
def Roomy (e : MatchingEngine) : Prop :=
  ∀ locate s, (e.bookView locate s).length ≤ kPriceLevelMapCapacity

/-- No side of a book is too large for its map, and no level for its counter. -/
structure WithinLimits (e : MatchingEngine) : Prop where
  levels : e.Roomy
  orders : ∀ locate s, ∀ v ∈ e.bookView locate s, v.orders.length ≤ 4294967296

variable {e e' : MatchingEngine} {caps : Capacities} {m : Market}
  {arrival held freeOrders freeLevels : List Ptr} {rungs : StockLocate → Side → List Rung}

/-- The books of an engine in the form that the traversals read them. -/
theorem Holds.represents (h : e.Holds arrival freeLevels rungs) (locate : StockLocate) :
    (e.bookState (e.bookAt locate)).book.Represents (e.bookState (e.bookAt locate)).orders
      (e.bookState (e.bookAt locate)).levels (atLocate (orderData e.orders) locate arrival)
      (rungs locate) :=
  h.books locate

/-- The traversal of a side passes its levels. -/
theorem Holds.levelList_eq (h : e.Holds arrival freeLevels rungs) (locate : StockLocate)
    (s : Side) : (e.bookState (e.bookAt locate)).levelList s = (rungs locate s).map Prod.fst :=
  BookState.levelList_eq ((h.represents locate).sides s).toThreads

/-- The traversal of a queue passes its orders. -/
theorem Holds.orderList_eq (h : e.Holds arrival freeLevels rungs) {locate : StockLocate} {s : Side}
    {g : Rung} (hg : g ∈ rungs locate s) :
    (e.bookState (e.bookAt locate)).orderList g.1 = g.2 :=
  BookState.orderList_eq (h.represents locate) hg

/-- The traversal of a book passes the live orders of its locate. -/
theorem Holds.forEachOrder_perm (h : e.Holds arrival freeLevels rungs) (locate : StockLocate) :
    (e.bookState (e.bookAt locate)).forEachOrder.Perm
      (atLocate (orderData e.orders) locate arrival) :=
  BookState.forEachOrder_perm (h.represents locate)

/-- A book looks as its orders call for. -/
theorem Holds.bookView_eq (h : e.Holds arrival freeLevels rungs) (locate : StockLocate)
    (s : Side) : e.bookView locate s =
      (bookOf (arrival.map (orderData e.orders)) locate s).map LevelView.ofGroup := by
  have hbook := h.books locate
  rw [← h.book_eq]
  unfold bookView
  simp only [h.levelList_eq, rename, priced, List.map_map]
  refine List.map_congr_left fun g hg => ?_
  have hqueue := (hbook.sides s).queues g hg
  show LevelView.mk (e.levels g.1).priceCents (e.levels g.1).totalShares (e.levels g.1).orderCount
    (((e.bookState (e.bookAt locate)).orderList g.1).map (orderData e.orders)) = _
  rw [h.orderList_eq hg, hqueue.shares, hqueue.count]
  simp [LevelView.ofGroup, sharesOf, orderData, Function.comp_def]

/-- An engine shows the books of its market. -/
theorem Refines.bookView_eq (h : e.Refines caps m) (locate : StockLocate) (s : Side) :
    e.bookView locate s = (m.book locate s).map LevelView.ofGroup := by
  obtain ⟨_, _, _, _, h⟩ := h
  rw [h.holds.bookView_eq, book, h.live]

/-- The index finds the orders of the market. -/
theorem Refines.orderOf_eq (h : e.Refines caps m) (id : OrderReferenceNumber) :
    e.orderOf id = m.find id := by
  obtain ⟨_, _, _, _, h⟩ := h
  unfold orderOf
  cases hfind : e.findOrder id with
  | none => exact (h.find_none.mp hfind).symm
  | some o => exact (h.find_some hfind).2.2.symm

/-- The index fails where the market does. -/
theorem Refines.find_none (h : e.Refines caps m) {id : OrderReferenceNumber} :
    e.findOrder id = none ↔ m.find id = none := by
  obtain ⟨_, _, _, _, h⟩ := h
  exact h.find_none

/-- Index and market know the same ids. -/
theorem Refines.find_isSome (h : e.Refines caps m) {id : OrderReferenceNumber} :
    (e.findOrder id).isSome = (m.find id).isSome := by
  obtain ⟨_, _, _, _, h⟩ := h
  exact h.find_isSome

/-- Engine and market have the same statistics. -/
theorem Refines.stats_eq (h : e.Refines caps m) : e.stats = m.stats := by
  obtain ⟨_, _, _, _, h⟩ := h
  exact h.stats.symm

/-- There are no more live orders than slots. -/
theorem Refines.length_le (h : e.Refines caps m) : m.live.length ≤ caps.orders := by
  obtain ⟨_, _, _, _, h⟩ := h
  have hslots := h.orderSlots
  rw [h.live, List.length_map, ← congrArg Capacities.orders h.capacities]
  show _ ≤ e.orderPool.capacity.toNat
  omega

/-- There are no more levels than slots. -/
theorem Refines.levelCount_le (h : e.Refines caps m) : levelCount m.live ≤ caps.levels := by
  obtain ⟨_, _, _, _, h⟩ := h
  have hcount := h.holds.levelCount_eq
  rw [h.live, ← congrArg Capacities.levels h.capacities]
  show _ ≤ e.levelPool.capacity.toNat
  omega

/-- The free slots of the order pool. -/
theorem Refines.orderPool_freeCount (h : e.Refines caps m) :
    e.orderPool.freeCount + m.live.length = caps.orders := by
  obtain ⟨_, _, _, _, h⟩ := h
  have hslots := h.orderSlots
  rw [h.orderPool.freeCount_eq, h.live, List.length_map, ← congrArg Capacities.orders h.capacities]
  exact hslots

/-- The free slots of the level pool. -/
theorem Refines.levelPool_freeCount (h : e.Refines caps m) :
    e.levelPool.freeCount + levelCount m.live = caps.levels := by
  obtain ⟨_, _, _, _, h⟩ := h
  rw [h.holds.levelPool.freeCount_eq, h.live, ← congrArg Capacities.levels h.capacities]
  exact h.holds.levelCount_eq

/-- The orders of one group are live orders. -/
theorem length_group_le {live : List OrderData} {locate : StockLocate} {s : Side}
    {g : Price × List OrderData} (hg : g ∈ bookOf live locate s) : g.2.length ≤ live.length := by
  have hsub : g.2.Sublist ((bookOf live locate s).flatMap Prod.snd) := by
    obtain ⟨l, r, hsplit⟩ := List.append_of_mem hg
    rw [hsplit, List.flatMap_append, List.flatMap_cons]
    exact (List.sublist_append_left _ _).trans (List.sublist_append_right _ _)
  have hperm := ladder_perm (pricePolicy s) OrderData.priceCents (restingOn live locate s)
  exact (hsub.length_le.trans_eq hperm.length_eq).trans (List.length_filter_le _ _)

/-- A market fits when its engine keeps the limits. -/
theorem Refines.fits_of_limits (h : e.Refines caps m) (hlimits : e.WithinLimits) : m.Fits := by
  refine ⟨fun locate s => ?_, fun locate s g hg => ?_⟩
  · have hlen := hlimits.levels locate s
    rwa [h.bookView_eq, List.length_map] at hlen
  · refine hlimits.orders locate s (LevelView.ofGroup g) ?_
    rw [h.bookView_eq]
    exact List.mem_map_of_mem hg

/-- With fewer than `2^32` order slots no level's counter wraps around. -/
theorem Refines.limits (h : e.Refines caps m) (hroomy : e.Roomy)
    (hcaps : caps.orders < 4294967296) : e.WithinLimits := by
  refine ⟨hroomy, fun locate s v hv => ?_⟩
  rw [h.bookView_eq] at hv
  obtain ⟨g, hg, rfl⟩ := List.mem_map.mp hv
  exact (length_group_le hg).trans (h.length_le.trans hcaps.le)

/-- A roomy engine with fewer than `2^32` order slots stands for a market that fits. -/
theorem Refines.fits (h : e.Refines caps m) (hroomy : e.Roomy) (hcaps : caps.orders < 4294967296) :
    m.Fits :=
  h.fits_of_limits (h.limits hroomy hcaps)

/-- The level counters of a book. -/
theorem Refines.liveLevels_eq (h : e.Refines caps m) (locate : StockLocate) :
    (e.bookAt locate).liveLevels.toNat = levelsAt m.live locate := by
  obtain ⟨_, _, _, _, h⟩ := h
  rw [← h.levelTotal, h.holds.liveLevels]

end MatchingEngine
end ItchParser
