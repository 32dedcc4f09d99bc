import ItchParser.Engine.Views
import ItchParser.Lib.Collect
import ItchParser.Logger

/-!
# EngineReport: what is printed about the engine

The model of `print_engine_report` in `ITCHProcessor.hpp`, which `main` repeats, and of the
accessors that it reads. A report holds the values that are printed, in the order of the text; the
text itself and the width of its columns are left out.
-/

namespace ItchParser

open OrderBook

namespace BookState

/-- The best level of one side: `best_bid_level`, `best_ask_level`. -/
def bestLevel (st : BookState) (s : Side) : Option PriceLevel :=
  (st.book.side s).best.map st.levels

/-- The price of the best level, 0 when there is none. -/
def bestPrice (st : BookState) (s : Side) : Price :=
  match st.bestLevel s with
  | some lvl => lvl.priceCents
  | none => 0

/-- The shares of the best level, 0 when there is none. -/
def bestShares (st : BookState) (s : Side) : UInt64 :=
  match st.bestLevel s with
  | some lvl => lvl.totalShares
  | none => 0

/-- The price of the best bid, 0 if there is none. -/
def bestBidPrice (st : BookState) : Price := st.bestPrice .buy

/-- The price of the best ask, 0 if there is none. -/
def bestAskPrice (st : BookState) : Price := st.bestPrice .sell

/-- The shares at the best bid. -/
def bestBidShares (st : BookState) : UInt64 := st.bestShares .buy

/-- The shares at the best ask. -/
def bestAskShares (st : BookState) : UInt64 := st.bestShares .sell

end BookState

/-- `for_each`: the instruments in the order of their locates. -/
def InstrumentMap.toList (m : InstrumentMap) : List Instrument :=
  (List.range 65536).filterMap fun l => m.slots (UInt16.ofNat l)

/-- A line of the top-of-book sample. -/
structure TopOfBook where
  symbol : List UInt8
  bidPrice : Price
  bidShares : UInt64
  askPrice : Price
  askShares : UInt64
  liveOrders : UInt64
  deriving DecidableEq

/-- The outcome of the leak detection. -/
inductive PoolLifecycle where
  | accountingBug (liveOrders : Nat)
  | leak (slots : Nat)
  | ok
  deriving DecidableEq

/-- The comparison of the live-order counter with the order pool. -/
def PoolLifecycle.check (liveOrders opFree opCap : Nat) : PoolLifecycle :=
  if liveOrders ≠ 0 ∧ opFree = opCap then .accountingBug liveOrders
  else if liveOrders = 0 ∧ opFree < opCap then .leak (opCap - opFree)
  else .ok

/-- The values of the report. -/
structure EngineReport where
  /-- The counters, where `Add-Order events` is the sum of the first two. -/
  stats : EngineStats
  addOrderEvents : Nat
  orderPoolFree : Nat
  orderPoolCapacity : Nat
  levelPoolFree : Nat
  levelPoolCapacity : Nat
  orderIndexSize : UInt64
  orderIndexCapacity : UInt64
  orderIndexOverflow : Nat
  orderIndexCollisions : Nat
  lifecycle : PoolLifecycle
  topOfBook : List TopOfBook

namespace MatchingEngine

/-- The line of an instrument, if it has a book with live orders. The symbol is printed as a C
string. -/
def topOfBook (e : MatchingEngine) (inst : Instrument) : Option TopOfBook :=
  match inst.book with
  | none => none
  | some book =>
      if book.liveOrderCount = 0 then none
      else
        let st := e.bookState book
        some ⟨cString inst.symbol.toList, st.bestBidPrice, st.bestBidShares, st.bestAskPrice,
          st.bestAskShares, book.liveOrderCount⟩

/-- The sample: the first 10 instruments with live orders. -/
def topOfBookSample (e : MatchingEngine) : List TopOfBook :=
  (e.instruments.toList.foldl (Collect.collect 10 e.topOfBook) (0, [])).2

/-- `print_engine_stats`: what the report of an engine prints. -/
def engineReport (e : MatchingEngine) : EngineReport :=
  let es := e.stats
  let opCap := e.orderPool.capacity.toNat
  let lpCap := e.levelPool.capacity.toNat
  let opFree := e.orderPool.freeCount
  let lpFree := e.levelPool.freeCount
  { stats := es
    addOrderEvents := es.addOrders + es.addOrdersWithMpid
    orderPoolFree := opFree
    orderPoolCapacity := opCap
    levelPoolFree := lpFree
    levelPoolCapacity := lpCap
    orderIndexSize := e.orderIndex.count
    orderIndexCapacity := DirectOrderIndex.kCapacity
    orderIndexOverflow := e.orderIndex.overflowSize
    orderIndexCollisions := e.orderIndex.collisions
    lifecycle := PoolLifecycle.check es.liveOrders opFree opCap
    topOfBook := e.topOfBookSample }

end MatchingEngine
end ItchParser
