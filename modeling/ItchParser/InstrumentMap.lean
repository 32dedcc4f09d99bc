import ItchParser.OrderBook

/-!
# InstrumentMap: the instruments by stock locate

The model of `InstrumentMap.hpp`. A locate is a 16-bit number and the array has a slot for each of
them, so the array is a function on locates. A book is created with the first order.
-/

namespace ItchParser

/-- An instrument: what its stock directory message said, its trading state, and its book. -/
structure Instrument where
  locate : StockLocate := 0
  symbol : Stock := Vector.replicate 8 0
  marketCategory : MarketCategory := MarketCategory.NotAvailable
  financialStatus : FinancialStatusIndicator := FinancialStatusIndicator.Normal
  roundLotSize : RoundLotSize := 100
  roundLotsOnly : RoundLotsOnly := RoundLotsOnly.No
  authenticity : Authenticity := Authenticity.Production
  shortScale : ShortScaleThresholdIndicator := ShortScaleThresholdIndicator.NotRestricted
  ipoFlag : IPOFlag := IPOFlag.NotAvailable
  luldTier : LULDReferencePriceTier := LULDReferencePriceTier.NotAvailable
  etpFlag : ETPFlag := ETPFlag.NotAvailable
  etpLeverageFactor : ETPLeverageFactor := 1
  inverseIndicator : InverseIndicator := InverseIndicator.NotInverseETP
  tradingState : TradingState := TradingState.Halted
  regSHOAction : RegSHOAction := RegSHOAction.NoPriceTest
  book : Option OrderBook := none

namespace Instrument

/-- Creates the book if there is none. -/
def ensureBook (inst : Instrument) : Instrument :=
  match inst.book with
  | some _ => inst
  | none => { inst with book := some OrderBook.create }

/-- Copies the 8-byte symbol field. -/
def setSymbol (inst : Instrument) (src : Stock) : Instrument :=
  { inst with symbol := src }

end Instrument

/-- The array `slots_` and the counter `count_`, a `size_t` that is never above the number of calls
(`MatchingEngine.counters_le_calls`). -/
structure InstrumentMap where
  slots : StockLocate → Option Instrument
  count : Nat

namespace InstrumentMap

/-- No instrument yet. -/
def create : InstrumentMap :=
  ⟨fun _ => none, 0⟩

/-- Replaces the instrument of a locate. -/
def set (m : InstrumentMap) (locate : StockLocate) (inst : Instrument) : InstrumentMap :=
  { m with slots := Function.update m.slots locate (some inst) }

/-- The instrument of a locate; a missing one is created. -/
def getOrCreate (m : InstrumentMap) (locate : StockLocate) : Instrument × InstrumentMap :=
  match m.slots locate with
  | some inst => (inst, m)
  | none =>
      let inst : Instrument := { locate := locate }
      (inst, { m.set locate inst with count := m.count + 1 })

/-- The book of a locate, if the instrument exists and has one. -/
def book (m : InstrumentMap) (locate : StockLocate) : Option OrderBook :=
  (m.slots locate).bind Instrument.book

/-- Writes the book of a locate back through the reference that the caller holds. -/
def setBook (m : InstrumentMap) (locate : StockLocate) (b : OrderBook) : InstrumentMap :=
  match m.slots locate with
  | some inst => m.set locate { inst with book := some b }
  | none => m

end InstrumentMap
end ItchParser
