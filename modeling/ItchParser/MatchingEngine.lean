import ItchParser.DirectOrderIndex
import ItchParser.InstrumentMap

/-!
# MatchingEngine: routing events to the books

The model of `MatchingEngine.hpp`. The engine owns the instruments, the two pools, the index and the
statistics, and every handler is a function from engine states to engine states. The logger is left
out, because no handler uses it.

The pools hold the memory of the orders and levels, so a book operation works on the book of one
locate together with both pools: `bookState` takes it out of the engine and `putBook` writes the
result back.

The counters of the statistics are `uint64_t` words in the source and natural numbers here. A call
raises each of them by one at most (`MatchingEngine.counters_le_calls`), so up to 2^64 calls both
are the same.
-/

namespace ItchParser

/-- Aggregated statistics: what became of the events, and how many orders and levels are live. -/
structure EngineStats where
  addOrders : Nat := 0
  addOrdersWithMpid : Nat := 0
  orderExecuted : Nat := 0
  orderExecutedWithPrice : Nat := 0
  orderCancel : Nat := 0
  orderDelete : Nat := 0
  orderReplace : Nat := 0
  nonCrossTrades : Nat := 0
  crossTrades : Nat := 0
  brokenTrades : Nat := 0
  instrumentsRegistered : Nat := 0
  addRejectedPoolExhausted : Nat := 0
  addRejectedLevelPoolExhausted : Nat := 0
  replaceRejectedPoolExhausted : Nat := 0
  duplicateAdds : Nat := 0
  locateMismatches : Nat := 0
  levelMissing : Nat := 0
  unknownOrderEvents : Nat := 0
  liveOrders : Nat := 0
  liveLevels : Nat := 0
  peakLiveOrders : Nat := 0
  peakLiveLevels : Nat := 0
  poolExhausted : Nat := 0
  deriving DecidableEq

namespace EngineStats

/-- `++live_orders` with its peak. -/
def raiseOrders (s : EngineStats) : EngineStats :=
  let live := s.liveOrders + 1
  if live > s.peakLiveOrders then { s with liveOrders := live, peakLiveOrders := live }
  else { s with liveOrders := live }

/-- `++live_levels` with its peak, when a level was opened. -/
def raiseLevels (s : EngineStats) (rc : Int) : EngineStats :=
  if rc = 2 then
    let live := s.liveLevels + 1
    if live > s.peakLiveLevels then { s with liveLevels := live, peakLiveLevels := live }
    else { s with liveLevels := live }
  else s

/-- `if (live_orders > 0) --live_orders`. -/
def dropOrder (s : EngineStats) : EngineStats :=
  if s.liveOrders > 0 then { s with liveOrders := s.liveOrders - 1 } else s

/-- `if (rc == 2 && live_levels > 0) --live_levels`. -/
def dropLevel (s : EngineStats) (rc : Int) : EngineStats :=
  if rc = 2 ∧ s.liveLevels > 0 then { s with liveLevels := s.liveLevels - 1 } else s

/-- The counters after a closing cross on a book with `orders` orders and `levels` levels. -/
def dropBook (s : EngineStats) (orders levels : Nat) : EngineStats :=
  { s with
    liveOrders := if s.liveOrders ≥ orders then s.liveOrders - orders else 0
    liveLevels := if s.liveLevels ≥ levels then s.liveLevels - levels else 0 }

/-- `++unknown_order_events`. -/
def countUnknown (s : EngineStats) : EngineStats :=
  { s with unknownOrderEvents := s.unknownOrderEvents + 1 }

/-- A duplicate is an unknown event as well. -/
def countDuplicate (s : EngineStats) : EngineStats :=
  { s with duplicateAdds := s.duplicateAdds + 1, unknownOrderEvents := s.unknownOrderEvents + 1 }

/-- A missing level is an unknown event as well. -/
def countLevelMissing (s : EngineStats) : EngineStats :=
  { s with levelMissing := s.levelMissing + 1, unknownOrderEvents := s.unknownOrderEvents + 1 }

/-- A rejection by the level pool is a rejection by a pool as well. -/
def countLevelPoolExhausted (s : EngineStats) : EngineStats :=
  { s with
    addRejectedLevelPoolExhausted := s.addRejectedLevelPoolExhausted + 1
    poolExhausted := s.poolExhausted + 1 }

/-- The check of an event's locate against the order's. -/
def countMismatch (s : EngineStats) (home locate : StockLocate) : EngineStats :=
  if home ≠ locate then { s with locateMismatches := s.locateMismatches + 1 } else s

end EngineStats

/-- The engine: the instruments with their books, the two pools, the index and the statistics. -/
structure MatchingEngine where
  instruments : InstrumentMap
  orderPool : MemoryPool Order
  levelPool : MemoryPool PriceLevel
  orderIndex : DirectOrderIndex
  stats : EngineStats

namespace MatchingEngine

/-- An engine with two fresh pools. -/
def create (orderPoolSize priceLevelPoolSize : UInt64) : MatchingEngine :=
  { instruments := InstrumentMap.create
    orderPool := MemoryPool.create orderPoolSize
    levelPool := MemoryPool.create priceLevelPoolSize
    orderIndex := DirectOrderIndex.create
    stats := {} }

/-- The order memory. -/
abbrev orders (e : MatchingEngine) : Ptr → Order :=
  e.orderPool.storage

/-- An update of the statistics. -/
def count (e : MatchingEngine) (f : EngineStats → EngineStats) : MatchingEngine :=
  { e with stats := f e.stats }

/-- A book with the memory of both pools. -/
def bookState (e : MatchingEngine) (b : OrderBook) : BookState :=
  ⟨b, e.orders, e.levelPool⟩

/-- Writes the result of a book operation back. -/
def putBook (e : MatchingEngine) (locate : StockLocate) (st : BookState) : MatchingEngine :=
  { e with
    instruments := e.instruments.setBook locate st.book
    orderPool := { e.orderPool with storage := st.orders }
    levelPool := st.levelPool }

/-- `order_index_.find`. -/
def findOrder (e : MatchingEngine) (id : OrderReferenceNumber) : Option Ptr :=
  e.orderIndex.find e.orders id

/-- `order_index_.erase`. -/
def eraseOrder (e : MatchingEngine) (id : OrderReferenceNumber) : MatchingEngine :=
  { e with orderIndex := (e.orderIndex.erase e.orders id).1 }

/-- `order_pool_.release`. -/
def releaseOrder (e : MatchingEngine) (o : Ptr) : MatchingEngine :=
  { e with orderPool := e.orderPool.release (some o) }

/-- The engine after an `acquire` of its order pool. -/
def setOrderPool (e : MatchingEngine) (pool : MemoryPool Order) : MatchingEngine :=
  { e with orderPool := pool }

/-- `new (mem) Order(...)`. -/
def constructOrder (e : MatchingEngine) (mem : Ptr) (order : Order) : MatchingEngine :=
  { e with orderPool := { e.orderPool with storage := Function.update e.orders mem order } }

/-! ## Directory messages -/

/-- Stock Directory ('R'). -/
def onStockDirectory (e : MatchingEngine) (locate : StockLocate) (symbol : Stock)
    (mc : MarketCategory) (fsi : FinancialStatusIndicator) (rls : RoundLotSize)
    (rlo : RoundLotsOnly) (auth : Authenticity) (ssti : ShortScaleThresholdIndicator)
    (ipo : IPOFlag) (luld : LULDReferencePriceTier) (etp : ETPFlag) (elf : ETPLeverageFactor)
    (inv : InverseIndicator) : MatchingEngine :=
  -- an instrument that an order has created is not new
  let isNew := (e.instruments.slots locate).isNone
  let (inst, instruments) := e.instruments.getOrCreate locate
  let inst := { inst.setSymbol symbol with
    marketCategory := mc
    financialStatus := fsi
    roundLotSize := rls
    roundLotsOnly := rlo
    authenticity := auth
    shortScale := ssti
    ipoFlag := ipo
    luldTier := luld
    etpFlag := etp
    etpLeverageFactor := elf
    inverseIndicator := inv }
  let e := { e with instruments := instruments.set locate inst }
  if isNew then e.count fun s => { s with instrumentsRegistered := s.instrumentsRegistered + 1 }
  else e

/-- The symbol and the reason are not used. -/
def onTradingAction (e : MatchingEngine) (locate : StockLocate) (state : TradingState)
    (_symbol : Stock) (_reason : Reason) : MatchingEngine :=
  match e.instruments.slots locate with
  | some inst =>
      { e with instruments := e.instruments.set locate { inst with tradingState := state } }
  | none => e

/-- Reg SHO restriction ('Y'). A locate without an instrument is ignored. -/
def onRegSho (e : MatchingEngine) (locate : StockLocate) (action : RegSHOAction) :
    MatchingEngine :=
  match e.instruments.slots locate with
  | some inst =>
      { e with instruments := e.instruments.set locate { inst with regSHOAction := action } }
  | none => e

/-! ## Order messages -/

/-- Indexes an order that is in its book, or takes it out again. -/
def indexAdded (e : MatchingEngine) (locate : StockLocate) (id : OrderReferenceNumber) (o : Ptr)
    (book : OrderBook) (rollback accept : EngineStats → EngineStats) : MatchingEngine :=
  match e.orderIndex.insert e.orders id o with
  | (_, false) =>
      -- the index turns the id away: undo the add
      let e := e.count rollback
      let (rm, st) := (e.bookState book).removeOrder o
      ((e.putBook locate st).count fun s => s.dropLevel rm).releaseOrder o
  | (index, true) =>
      { e with orderIndex := index }.count fun s => accept s.raiseOrders

/-- Puts a constructed order into its book and into the index. `rollback` counts an order that the
index turns away, `accept` one that was added. -/
def placeOrder (e : MatchingEngine) (locate : StockLocate) (id : OrderReferenceNumber) (o : Ptr)
    (book : OrderBook) (rollback accept : EngineStats → EngineStats) : MatchingEngine :=
  let (rc, st) := (e.bookState book).addOrder o
  let e := e.putBook locate st
  if rc = 0 then (e.count EngineStats.countLevelPoolExhausted).releaseOrder o
  else
    (e.count fun s => s.raiseLevels rc).indexAdded locate id o st.book rollback accept

/-- Add order (A/F). -/
def onAddOrder (e : MatchingEngine) (locate : StockLocate) (id : OrderReferenceNumber)
    (bsi : BuySellIndicator) (qty : Shares) (px : Price) (ts : Timestamp) (mpid : MPID)
    (attributed : Bool) : MatchingEngine :=
  if (e.findOrder id).isSome then e.count EngineStats.countDuplicate
  else
    let (inst, instruments) := e.instruments.getOrCreate locate
    let inst := inst.ensureBook
    let e := { e with instruments := instruments.set locate inst }
    match e.orderPool.acquire with
    | none =>
        e.count fun s => { s with
          addRejectedPoolExhausted := s.addRejectedPoolExhausted + 1
          poolExhausted := s.poolExhausted + 1 }
    | some (mem, pool) =>
        let order := Order.create id locate px qty (toSide bsi) ts
          (if attributed then mpid else MPID.blank)
        let e := (e.setOrderPool pool).constructOrder mem order
        e.placeOrder locate id mem (inst.book.getD OrderBook.create) EngineStats.countDuplicate
          fun s =>
            if attributed then { s with addOrdersWithMpid := s.addOrdersWithMpid + 1 }
            else { s with addOrders := s.addOrders + 1 }

/-- What `on_order_executed`, `on_order_executed_with_price` and `on_order_cancel` have in common:
the lookup, the method of the book, the counter of accepted events. -/
def reduceOrder (e : MatchingEngine) (locate : StockLocate) (id : OrderReferenceNumber)
    (method : BookState → Ptr → Int × BookState) (accept : EngineStats → EngineStats) :
    MatchingEngine :=
  match e.findOrder id with
  | none => e.count EngineStats.countUnknown
  | some o =>
      let home := (e.orders o).locate
      let e := e.count fun s => s.countMismatch home locate
      match e.instruments.book home with
      | none => e.count EngineStats.countUnknown
      | some book =>
          let (rc, st) := method (e.bookState book) o
          let e := e.putBook home st
          -- the level was not found, and the order stays where it is
          if rc < 0 then e.count EngineStats.countLevelMissing
          else
            let e := e.count accept
            if rc > 0 then
              ((e.eraseOrder id).releaseOrder o).count fun s => s.dropOrder.dropLevel rc
            else e

/-- Order Executed ('E'). -/
def onOrderExecuted (e : MatchingEngine) (locate : StockLocate) (id : OrderReferenceNumber)
    (execQty : Shares) (_match : MatchNumber) : MatchingEngine :=
  e.reduceOrder locate id (fun st o => st.executeOrder o execQty) fun s =>
    { s with orderExecuted := s.orderExecuted + 1 }

/-- Order Executed With Price ('C'): the execution price is informational only. -/
def onOrderExecutedWithPrice (e : MatchingEngine) (locate : StockLocate)
    (id : OrderReferenceNumber) (execQty : Shares) (_match : MatchNumber)
    (_printable : Printable) (_execPx : ExecutionPrice) : MatchingEngine :=
  e.reduceOrder locate id (fun st o => st.executeOrder o execQty) fun s =>
    { s with orderExecutedWithPrice := s.orderExecutedWithPrice + 1 }

/-- Order Cancel ('X'). -/
def onOrderCancel (e : MatchingEngine) (locate : StockLocate) (id : OrderReferenceNumber)
    (cancelledQty : Shares) : MatchingEngine :=
  e.reduceOrder locate id (fun st o => st.cancelOrder o cancelledQty) fun s =>
    { s with orderCancel := s.orderCancel + 1 }

/-- Order Delete ('D'). Here 0 is the result for a missing level. -/
def onOrderDelete (e : MatchingEngine) (locate : StockLocate) (id : OrderReferenceNumber) :
    MatchingEngine :=
  match e.findOrder id with
  | none => e.count EngineStats.countUnknown
  | some o =>
      let home := (e.orders o).locate
      let e := e.count fun s => s.countMismatch home locate
      match e.instruments.book home with
      | none => e.count EngineStats.countUnknown
      | some book =>
          let (rc, st) := (e.bookState book).removeOrder o
          let e := e.putBook home st
          if rc = 0 then e.count EngineStats.countLevelMissing
          else
            ((e.eraseOrder id).releaseOrder o).count fun s =>
              let s := s.dropOrder.dropLevel rc
              { s with orderDelete := s.orderDelete + 1 }

/-- The part of `on_order_replace` behind the checks: `mem` is the slot for the new order. Side and
MPID are carried over from the old order. -/
def replaceOrder (e : MatchingEngine) (home : StockLocate) (oldId newId : OrderReferenceNumber)
    (newQty : Shares) (newPx : Price) (ts : Timestamp) (old mem : Ptr) (book : OrderBook) :
    MatchingEngine :=
  let side := (e.orders old).side
  let mpid := (e.orders old).mpid
  let (rm, st) := (e.bookState book).removeOrder old
  let e := e.putBook home st
  -- the old order stays where it is, and the new slot goes back
  if rm = 0 then (e.count EngineStats.countLevelMissing).releaseOrder mem
  else
    let e := ((e.eraseOrder oldId).releaseOrder old).count fun s => s.dropOrder.dropLevel rm
    let order := Order.create newId home newPx newQty side ts mpid
    (e.constructOrder mem order).placeOrder home newId mem st.book
      (fun s => { s with duplicateAdds := s.duplicateAdds + 1 }) fun s =>
        { s with orderReplace := s.orderReplace + 1 }

/-- Order Replace ('U'). -/
def onOrderReplace (e : MatchingEngine) (locate : StockLocate)
    (oldId newId : OrderReferenceNumber) (newQty : Shares) (newPx : Price) (ts : Timestamp) :
    MatchingEngine :=
  match e.findOrder oldId with
  | none => e.count EngineStats.countUnknown
  | some old =>
      let home := (e.orders old).locate
      let e := e.count fun s => s.countMismatch home locate
      if (e.findOrder newId).isSome then e.count EngineStats.countDuplicate
      else
        match e.instruments.book home with
        | none => e.count EngineStats.countUnknown
        | some book =>
            match e.orderPool.acquire with
            | none =>
                e.count fun s => { s with
                  replaceRejectedPoolExhausted := s.replaceRejectedPoolExhausted + 1
                  poolExhausted := s.poolExhausted + 1 }
            | some (mem, pool) =>
                (e.setOrderPool pool).replaceOrder home oldId newId newQty newPx ts old mem book

/-! ## Trades -/

/-- Non-Cross Trade ('P'). The visible book stays as it is. -/
def onNonCrossTrade (e : MatchingEngine) (_locate : StockLocate) (_qty : Shares) (_px : Price)
    (_match : MatchNumber) : MatchingEngine :=
  e.count fun s => { s with nonCrossTrades := s.nonCrossTrades + 1 }

/-- The loop of `on_cross_trade` over the orders of the book. -/
def releaseSnapshot (e : MatchingEngine) (snapshot : List Ptr) : MatchingEngine :=
  snapshot.foldl (fun e o => (e.eraseOrder (e.orders o).orderId).releaseOrder o) e

/-- The part of `on_cross_trade` for a closing cross: the orders are released before the levels. -/
def closeBook (e : MatchingEngine) (locate : StockLocate) (book : OrderBook) : MatchingEngine :=
  let bookLevels := book.liveLevels.toNat
  let snapshot := (e.bookState book).forEachOrder
  let e := (e.releaseSnapshot snapshot).count fun s => s.dropBook snapshot.length bookLevels
  e.putBook locate (e.bookState book).clearLevels

/-- Cross Trade ('Q'). Only the closing cross clears the book. -/
def onCrossTrade (e : MatchingEngine) (locate : StockLocate) (xtype : CrossType) :
    MatchingEngine :=
  let e := e.count fun s => { s with crossTrades := s.crossTrades + 1 }
  if xtype ≠ CrossType.Closing then e
  else
    match e.instruments.book locate with
    | none => e
    | some book => e.closeBook locate book

/-- Broken Trade ('B'). The order is not added again. -/
def onBrokenTrade (e : MatchingEngine) (_locate : StockLocate) (_match : MatchNumber) :
    MatchingEngine :=
  e.count fun s => { s with brokenTrades := s.brokenTrades + 1 }

/-! ## Calls -/

end MatchingEngine

/-- A call of one of the handlers, with its arguments. -/
inductive Call where
  | stockDirectory (locate : StockLocate) (symbol : Stock) (mc : MarketCategory)
      (fsi : FinancialStatusIndicator) (rls : RoundLotSize) (rlo : RoundLotsOnly)
      (auth : Authenticity) (ssti : ShortScaleThresholdIndicator) (ipo : IPOFlag)
      (luld : LULDReferencePriceTier) (etp : ETPFlag) (elf : ETPLeverageFactor)
      (inv : InverseIndicator)
  | tradingAction (locate : StockLocate) (state : TradingState) (symbol : Stock) (reason : Reason)
  | regSho (locate : StockLocate) (action : RegSHOAction)
  | addOrder (locate : StockLocate) (id : OrderReferenceNumber) (bsi : BuySellIndicator)
      (qty : Shares) (px : Price) (ts : Timestamp) (mpid : MPID) (attributed : Bool)
  | orderExecuted (locate : StockLocate) (id : OrderReferenceNumber) (execQty : Shares)
      (matchNo : MatchNumber)
  | orderExecutedWithPrice (locate : StockLocate) (id : OrderReferenceNumber) (execQty : Shares)
      (matchNo : MatchNumber) (printable : Printable) (execPx : ExecutionPrice)
  | orderCancel (locate : StockLocate) (id : OrderReferenceNumber) (cancelledQty : Shares)
  | orderDelete (locate : StockLocate) (id : OrderReferenceNumber)
  | orderReplace (locate : StockLocate) (oldId newId : OrderReferenceNumber) (newQty : Shares)
      (newPx : Price) (ts : Timestamp)
  | nonCrossTrade (locate : StockLocate) (qty : Shares) (px : Price) (matchNo : MatchNumber)
  | crossTrade (locate : StockLocate) (xtype : CrossType)
  | brokenTrade (locate : StockLocate) (matchNo : MatchNumber)
  deriving DecidableEq

namespace Call

/-- The locate that a call carries. -/
def locate : Call → StockLocate
  | .stockDirectory locate _ _ _ _ _ _ _ _ _ _ _ _ => locate
  | .tradingAction locate _ _ _ => locate
  | .regSho locate _ => locate
  | .addOrder locate _ _ _ _ _ _ _ => locate
  | .orderExecuted locate _ _ _ => locate
  | .orderExecutedWithPrice locate _ _ _ _ _ => locate
  | .orderCancel locate _ _ => locate
  | .orderDelete locate _ => locate
  | .orderReplace locate _ _ _ _ _ => locate
  | .nonCrossTrade locate _ _ _ => locate
  | .crossTrade locate _ => locate
  | .brokenTrade locate _ => locate

end Call

namespace MatchingEngine

/-- Carries out one call. -/
def step (e : MatchingEngine) : Call → MatchingEngine
  | .stockDirectory locate symbol mc fsi rls rlo auth ssti ipo luld etp elf inv =>
      e.onStockDirectory locate symbol mc fsi rls rlo auth ssti ipo luld etp elf inv
  | .tradingAction locate state symbol reason => e.onTradingAction locate state symbol reason
  | .regSho locate action => e.onRegSho locate action
  | .addOrder locate id bsi qty px ts mpid attributed =>
      e.onAddOrder locate id bsi qty px ts mpid attributed
  | .orderExecuted locate id execQty matchNo => e.onOrderExecuted locate id execQty matchNo
  | .orderExecutedWithPrice locate id execQty matchNo printable execPx =>
      e.onOrderExecutedWithPrice locate id execQty matchNo printable execPx
  | .orderCancel locate id cancelledQty => e.onOrderCancel locate id cancelledQty
  | .orderDelete locate id => e.onOrderDelete locate id
  | .orderReplace locate oldId newId newQty newPx ts =>
      e.onOrderReplace locate oldId newId newQty newPx ts
  | .nonCrossTrade locate qty px matchNo => e.onNonCrossTrade locate qty px matchNo
  | .crossTrade locate xtype => e.onCrossTrade locate xtype
  | .brokenTrade locate matchNo => e.onBrokenTrade locate matchNo

end MatchingEngine
end ItchParser
