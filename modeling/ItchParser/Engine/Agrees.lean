import ItchParser.Engine.Runs
import ItchParser.Market.Runs

/-!
# Engines that agree

Two engines agree when they have the same books, index the same orders, count the same live orders
and levels and have the same room in their pools. Which slots the orders and levels occupy does not
matter. Engines that stand for the same live orders agree.

A call leaves the books and the index of an engine intact when the slots are the same as well.
-/

namespace ItchParser

open OrderBook Machine

namespace MatchingEngine

/-- The two engines cannot be told apart by their books, indexes, live counters and pools. -/
structure Agrees (e e' : MatchingEngine) : Prop where
  books : ∀ locate s, e.bookView locate s = e'.bookView locate s
  orders : ∀ id, e.orderOf id = e'.orderOf id
  liveOrders : e.stats.liveOrders = e'.stats.liveOrders
  liveLevels : e.stats.liveLevels = e'.stats.liveLevels
  freeOrders : e.orderPool.freeCount = e'.orderPool.freeCount
  freeLevels : e.levelPool.freeCount = e'.levelPool.freeCount

/-- The books and the index are the same, in the same slots. -/
structure Intact (e e' : MatchingEngine) : Prop where
  books : ∀ locate s, e'.bookView locate s = e.bookView locate s
  traversals : ∀ locate, (e'.bookState (e'.bookAt locate)).forEachOrder =
    (e.bookState (e.bookAt locate)).forEachOrder
  index : e'.orderIndex = e.orderIndex
  find : ∀ id, e'.findOrder id = e.findOrder id
  orders : ∀ id o, e.findOrder id = some o → e'.orders o = e.orders o

variable {e e' : MatchingEngine} {caps : Capacities} {m m' : Market}
  {arrival freeOrders freeLevels : List Ptr} {rungs : StockLocate → Side → List Rung}

/-- Engines that stand for markets with the same live orders look the same. -/
theorem Refines.agrees (h : e.Refines caps m) (h' : e'.Refines caps m') (hcounts : m.Counts)
    (hcounts' : m'.Counts) (hlive : m.live = m'.live) : e.Agrees e' := by
  refine ⟨fun locate s => ?_, fun id => ?_, ?_, ?_, ?_, ?_⟩
  · rw [h.bookView_eq, h'.bookView_eq, Market.book, Market.book, hlive]
  · rw [h.orderOf_eq, h'.orderOf_eq, Market.find_eq, Market.find_eq, hlive]
  · rw [h.stats_eq, h'.stats_eq, hcounts.liveOrders, hcounts'.liveOrders, hlive]
  · rw [h.stats_eq, h'.stats_eq, hcounts.liveLevels, hcounts'.liveLevels, hlive]
  · have hfree := h.orderPool_freeCount
    have hfree' := h'.orderPool_freeCount
    rw [hlive] at hfree
    omega
  · have hfree := h.levelPool_freeCount
    have hfree' := h'.levelPool_freeCount
    rw [hlive] at hfree
    omega

/-- A call after which no book has more levels than before keeps the engine roomy. -/
theorem Refines.roomy_of_le (h : e.Refines caps m) (h' : e'.Refines caps m')
    (hle : ∀ locate s, (m'.book locate s).length ≤ (m.book locate s).length)
    (hroomy : e.Roomy) : e'.Roomy := by
  intro locate s
  have hlen := hroomy locate s
  rw [h.bookView_eq, List.length_map] at hlen
  rw [h'.bookView_eq, List.length_map]
  exact (hle locate s).trans hlen

/-! ## Intact engines -/

/-- Counting leaves the books alone. -/
theorem intact_count (f : EngineStats → EngineStats) : Intact e (e.count f) :=
  ⟨fun _ _ => rfl, fun _ => rfl, rfl, fun _ => rfl, fun _ _ _ => rfl⟩

/-- The traversal of a book by its rungs. -/
theorem Holds.forEachOrder_eq (h : e.Holds arrival freeLevels rungs) (locate : StockLocate) :
    (e.bookState (e.bookAt locate)).forEachOrder =
      (rungs locate .buy ++ rungs locate .sell).flatMap Prod.snd := by
  have hside := fun s => BookState.flatMap_orderList (s := s) (h.represents locate)
  rw [List.flatMap_append, ← hside, ← hside]
  rfl

/-- Two engines with the same layout, index and live orders. -/
theorem intact_of_layout (h : e.Layout arrival [] freeOrders freeLevels rungs)
    (h' : e'.Layout arrival [] freeOrders freeLevels rungs)
    (horders : ∀ p ∈ arrival, e'.orders p = e.orders p) (hindex : e'.orderIndex = e.orderIndex) :
    Intact e e' := by
  have hfind : ∀ id o, e'.findOrder id = some o ↔ e.findOrder id = some o := by
    intro id o
    refine h'.index.find_some.trans (Iff.trans ?_ h.index.find_some.symm)
    refine and_congr_right fun ho => ?_
    rw [horders o ho]
  have hdata : arrival.map (orderData e'.orders) = arrival.map (orderData e.orders) :=
    List.map_congr_left fun p hp => by rw [orderData, orderData, horders p hp]
  refine ⟨fun locate s => ?_, fun locate => ?_, hindex, fun id => Option.ext (hfind id),
    fun id o ho => horders o (h.index.find_some.mp ho).1⟩
  · rw [h'.holds.bookView_eq, h.holds.bookView_eq, hdata]
  · rw [h'.holds.forEachOrder_eq, h.holds.forEachOrder_eq]

end MatchingEngine
end ItchParser
