import Mathlib.Init

/-!
# Shared types

The aliases, enumerations and constants of `Types.hpp` that the parser and the engine use. An
`enum class` over `char` is cast from a wire byte without a check, so every byte is one of its
values and it is an alias of `UInt8`, with the enumerators that the code compares against as
constants. `Side` is different: the code only ever builds its two enumerators.
-/

namespace ItchParser

/-! The fields of fixed width. -/

abbrev StockLocate := UInt16
abbrev Timestamp := UInt64
abbrev Stock := Vector UInt8 8
abbrev RoundLotSize := UInt32
abbrev ETPLeverageFactor := UInt32
abbrev Reason := Vector UInt8 4
abbrev MPID := Vector UInt8 4
abbrev OrderReferenceNumber := UInt64
abbrev Shares := UInt32
abbrev Price := UInt32
abbrev MatchNumber := UInt64
abbrev ExecutionPrice := UInt32

/-! The enumerations over `char`. -/

abbrev MarketCategory := UInt8
abbrev FinancialStatusIndicator := UInt8
abbrev RoundLotsOnly := UInt8
abbrev Authenticity := UInt8
abbrev ShortScaleThresholdIndicator := UInt8
abbrev IPOFlag := UInt8
abbrev LULDReferencePriceTier := UInt8
abbrev ETPFlag := UInt8
abbrev InverseIndicator := UInt8
abbrev TradingState := UInt8
abbrev RegSHOAction := UInt8
abbrev BuySellIndicator := UInt8
abbrev Printable := UInt8
abbrev CrossType := UInt8

/-- The byte of an ASCII character. -/
def ascii (c : Char) : UInt8 := c.toNat.toUInt8

/-- `CrossType::Closing`, the only cross that clears a book. -/
def CrossType.Closing : CrossType := ascii 'C'

/-! The enumerators that a new instrument starts with. -/

def MarketCategory.NotAvailable : MarketCategory := ascii ' '
def FinancialStatusIndicator.Normal : FinancialStatusIndicator := ascii 'N'
def RoundLotsOnly.No : RoundLotsOnly := ascii 'N'
def Authenticity.Production : Authenticity := ascii 'P'
def ShortScaleThresholdIndicator.NotRestricted : ShortScaleThresholdIndicator := ascii 'N'
def IPOFlag.NotAvailable : IPOFlag := ascii ' '
def LULDReferencePriceTier.NotAvailable : LULDReferencePriceTier := ascii ' '
def ETPFlag.NotAvailable : ETPFlag := ascii ' '
def InverseIndicator.NotInverseETP : InverseIndicator := ascii 'N'
def TradingState.Halted : TradingState := ascii 'H'
def RegSHOAction.NoPriceTest : RegSHOAction := ascii '0'

/-- `MPID{' ', ' ', ' ', ' '}`, the attribution of an order that has none. -/
def MPID.blank : MPID := Vector.replicate 4 (ascii ' ')

/-- The side of an order. -/
inductive Side where
  | buy
  | sell
  deriving DecidableEq, Repr

/-- A statement about both sides, side by side. -/
theorem Side.forall_iff {p : Side → Prop} : (∀ s, p s) ↔ p .buy ∧ p .sell := by
  refine ⟨fun h => ⟨h .buy, h .sell⟩, fun h s => ?_⟩
  cases s with
  | buy => exact h.1
  | sell => exact h.2

instance (p : Side → Prop) [DecidablePred p] : Decidable (∀ s, p s) :=
  decidable_of_iff' _ Side.forall_iff

/-- Every indicator other than `B` means a sell order. -/
def toSide (bsi : BuySellIndicator) : Side :=
  if bsi = ascii 'B' then .buy else .sell

end ItchParser
