import ItchParser.Endian
import ItchParser.MatchingEngine
import ItchParser.Stats
import ItchParser.WireFormat

/-!
# Parser: from a byte buffer to calls of the engine

The model of `Parser.hpp`. A handler is the size that it checks a payload against and the decoder
of the call that it then makes. The parser is generic in the engine, which is a state `σ` and the
effect `on` of a call on it, so that a run can be observed on the engine's model and on the plain
list of calls alike. Next to the state of the loop the model keeps the offsets of all bytes loaded
so far, in order.
-/

namespace ItchParser

open PackedRecord

/-! ## Field accesses -/

/-- A byte of the record. -/
def byte (f : Field) : Decoder UInt8 := Decoder.byte f.offset

/-- A text field, copied as it is. -/
def alpha (f : Field) (n : Nat) : Decoder (Vector UInt8 n) := Decoder.bytes f.offset n

/-- A two-byte field in network order. -/
def be16 (f : Field) : Decoder UInt16 := loadBe16 <$> Decoder.bytes f.offset 2

/-- A four-byte field in network order. -/
def be32 (f : Field) : Decoder UInt32 := loadBe32 <$> Decoder.bytes f.offset 4

/-- An eight-byte field in network order. -/
def be64 (f : Field) : Decoder UInt64 := loadBe64 <$> Decoder.bytes f.offset 8

/-- A six-byte timestamp in network order. -/
def be48 (f : Field) : Decoder UInt64 := loadBe48 <$> Decoder.bytes f.offset 6

/-! ## Handlers -/

/-- What a `handle_*` method of the parser reads of a payload. -/
structure Handler where
  /-- The size of the message struct. -/
  size : Nat
  /-- The call of the engine, if the handler makes one. -/
  decode : Decoder (Option Call)

namespace Parser

/-- `S`. The event code is read and ignored. -/
def handleSystemEvent : Handler where
  size := SystemEventMsg.size
  decode := (fun _ => none) <$> byte SystemEventMsg.eventCode

/-- `R`. -/
def handleStockDirectory : Handler where
  size := StockDirectoryMsg.size
  decode := some <$> (Call.stockDirectory
    <$> be16 CommonHeader.stockLocateHi
    <*> alpha StockDirectoryMsg.stock 8
    <*> byte StockDirectoryMsg.marketCategory
    <*> byte StockDirectoryMsg.financialStatusIndicator
    <*> be32 StockDirectoryMsg.roundLotSize
    <*> byte StockDirectoryMsg.roundLotsOnly
    <*> byte StockDirectoryMsg.authenticity
    <*> byte StockDirectoryMsg.shortScaleThresholdIndicator
    <*> byte StockDirectoryMsg.ipoFlag
    <*> byte StockDirectoryMsg.luldReferencePriceTier
    <*> byte StockDirectoryMsg.etpFlag
    <*> be32 StockDirectoryMsg.etpLeverageFactor
    <*> byte StockDirectoryMsg.inverseIndicator)

/-- `H`. -/
def handleStockTradingAction : Handler where
  size := StockTradingActionMsg.size
  decode := some <$> (Call.tradingAction
    <$> be16 CommonHeader.stockLocateHi
    <*> byte StockTradingActionMsg.tradingState
    <*> alpha StockTradingActionMsg.stock 8
    <*> alpha StockTradingActionMsg.reason 4)

/-- `Y`. -/
def handleRegSho : Handler where
  size := RegSHOMsg.size
  decode := some <$> (Call.regSho
    <$> be16 CommonHeader.stockLocateHi
    <*> byte RegSHOMsg.regSHOAction)

/-- The handlers of the messages that do not affect the book only check the size. -/
def checkOnly (size : Nat) : Handler where
  size := size
  decode := pure none

/-- `L`. -/
def handleMarketParticipant : Handler := checkOnly MarketParticipantPositionMsg.size

/-- `V`. -/
def handleMwcbDecline : Handler := checkOnly MWCBDeclineLevelMsg.size

/-- `W`. -/
def handleMwcbStatus : Handler := checkOnly MWCBStatusMsg.size

/-- `K`. -/
def handleIpoQuotingPeriod : Handler := checkOnly IPOQuotingPeriodUpdateMsg.size

/-- `J`. -/
def handleLuldAuctionCollar : Handler := checkOnly LULDAuctionCollarMsg.size

/-- `h`. -/
def handleOperationalHalt : Handler := checkOnly OperationalHaltMsg.size

/-- `A`, and `F` when the order is attributed. -/
def handleAddOrder (attributed : Bool) : Handler :=
  if attributed then
    { size := AddOrderMPIDMsg.size
      decode := some <$> (Call.addOrder
        <$> be16 CommonHeader.stockLocateHi
        <*> be64 AddOrderMPIDMsg.orderReferenceNumber
        <*> byte AddOrderMPIDMsg.buySellIndicator
        <*> be32 AddOrderMPIDMsg.shares
        <*> be32 AddOrderMPIDMsg.price
        <*> be48 CommonHeader.ts
        <*> alpha AddOrderMPIDMsg.attribution 4
        <*> pure true) }
  else
    { size := AddOrderMsg.size
      decode := some <$> (Call.addOrder
        <$> be16 CommonHeader.stockLocateHi
        <*> be64 AddOrderMsg.orderReferenceNumber
        <*> byte AddOrderMsg.buySellIndicator
        <*> be32 AddOrderMsg.shares
        <*> be32 AddOrderMsg.price
        <*> be48 CommonHeader.ts
        <*> pure MPID.blank
        <*> pure false) }

/-- `E`. -/
def handleOrderExecuted : Handler where
  size := OrderExecutedMsg.size
  decode := some <$> (Call.orderExecuted
    <$> be16 CommonHeader.stockLocateHi
    <*> be64 OrderExecutedMsg.orderReferenceNumber
    <*> be32 OrderExecutedMsg.executedShares
    <*> be64 OrderExecutedMsg.matchNumber)

/-- `C`. -/
def handleOrderExecutedPrice : Handler where
  size := OrderExecutedWithPriceMsg.size
  decode := some <$> (Call.orderExecutedWithPrice
    <$> be16 CommonHeader.stockLocateHi
    <*> be64 OrderExecutedWithPriceMsg.orderReferenceNumber
    <*> be32 OrderExecutedWithPriceMsg.executedShares
    <*> be64 OrderExecutedWithPriceMsg.matchNumber
    <*> byte OrderExecutedWithPriceMsg.printable
    <*> be32 OrderExecutedWithPriceMsg.executionPrice)

/-- `X`. -/
def handleOrderCancel : Handler where
  size := OrderCancelMsg.size
  decode := some <$> (Call.orderCancel
    <$> be16 CommonHeader.stockLocateHi
    <*> be64 OrderCancelMsg.orderReferenceNumber
    <*> be32 OrderCancelMsg.cancelledShares)

/-- `D`. -/
def handleOrderDelete : Handler where
  size := OrderDeleteMsg.size
  decode := some <$> (Call.orderDelete
    <$> be16 CommonHeader.stockLocateHi
    <*> be64 OrderDeleteMsg.orderReferenceNumber)

/-- `U`. -/
def handleOrderReplace : Handler where
  size := OrderReplaceMsg.size
  decode := some <$> (Call.orderReplace
    <$> be16 CommonHeader.stockLocateHi
    <*> be64 OrderReplaceMsg.originalOrderReferenceNumber
    <*> be64 OrderReplaceMsg.newOrderReferenceNumber
    <*> be32 OrderReplaceMsg.shares
    <*> be32 OrderReplaceMsg.price
    <*> be48 CommonHeader.ts)

/-- `P`. -/
def handleNonCrossTrade : Handler where
  size := NonCrossTradeMsg.size
  decode := some <$> (Call.nonCrossTrade
    <$> be16 CommonHeader.stockLocateHi
    <*> be32 NonCrossTradeMsg.shares
    <*> be32 NonCrossTradeMsg.price
    <*> be64 NonCrossTradeMsg.matchNumber)

/-- `Q`. -/
def handleCrossTrade : Handler where
  size := CrossTradeMsg.size
  decode := some <$> (Call.crossTrade
    <$> be16 CommonHeader.stockLocateHi
    <*> byte CrossTradeMsg.crossType)

/-- `B`. -/
def handleBrokenTrade : Handler where
  size := BrokenTradeMsg.size
  decode := some <$> (Call.brokenTrade
    <$> be16 CommonHeader.stockLocateHi
    <*> be64 BrokenTradeMsg.matchNumber)

/-- `I`. -/
def handleNoii : Handler := checkOnly NOIIMsg.size

/-- `N`. -/
def handleRpii : Handler := checkOnly RetailPriceImprovementIndicatorMsg.size

/-- `O`. -/
def handleDlcr : Handler := checkOnly DLCRMsg.size

/-- The `switch` of `dispatch`. -/
def handlerOf (type : UInt8) : Option Handler :=
  match Char.ofUInt8 type with
  | 'S' => some handleSystemEvent
  | 'R' => some handleStockDirectory
  | 'H' => some handleStockTradingAction
  | 'Y' => some handleRegSho
  | 'L' => some handleMarketParticipant
  | 'V' => some handleMwcbDecline
  | 'W' => some handleMwcbStatus
  | 'K' => some handleIpoQuotingPeriod
  | 'J' => some handleLuldAuctionCollar
  | 'h' => some handleOperationalHalt
  | 'A' => some (handleAddOrder false)
  | 'F' => some (handleAddOrder true)
  | 'E' => some handleOrderExecuted
  | 'C' => some handleOrderExecutedPrice
  | 'X' => some handleOrderCancel
  | 'D' => some handleOrderDelete
  | 'U' => some handleOrderReplace
  | 'P' => some handleNonCrossTrade
  | 'Q' => some handleCrossTrade
  | 'B' => some handleBrokenTrade
  | 'I' => some handleNoii
  | 'N' => some handleRpii
  | 'O' => some handleDlcr
  | _ => none

/-- No handler loads a byte behind the struct whose size it checks. -/
theorem offsets_lt {type : UInt8} {h : Handler} (hh : handlerOf type = some h) :
    ∀ o ∈ h.decode.offsets, o < h.size := by
  unfold handlerOf at hh
  split at hh <;> cases hh <;> decide

/-- The handlers check the sizes that the registry has, for the same types. -/
theorem handlerOf_size (type : UInt8) : (handlerOf type).map Handler.size =
    if type ∈ kMsgMeta.map MsgMeta.type then some (wirePayloadSize type) else none := by
  have hall : ∀ n < 256, (handlerOf (UInt8.ofNat n)).map Handler.size =
      if UInt8.ofNat n ∈ kMsgMeta.map MsgMeta.type then some (wirePayloadSize (UInt8.ofNat n))
      else none := by decide +kernel
  have htype := hall type.toNat type.toNat_lt
  rwa [UInt8.ofNat_toNat] at htype

/-- A byte without a handler is the type of no message. -/
theorem handlerOf_none {type : UInt8} (hh : handlerOf type = none) :
    type ∉ kMsgMeta.map MsgMeta.type := by
  intro hknown
  have hsize := handlerOf_size type
  rw [hh, if_pos hknown] at hsize
  cases hsize

/-- A handler belongs to a message type and reads as many bytes as that has. -/
theorem handlerOf_some {type : UInt8} {h : Handler} (hh : handlerOf type = some h) :
    type ∈ kMsgMeta.map MsgMeta.type ∧ h.size = wirePayloadSize type := by
  have hsize := handlerOf_size type
  rw [hh, Option.map_some] at hsize
  split at hsize
  · exact ⟨by assumption, Option.some.inj hsize⟩
  · cases hsize

/-! ## The loop -/

/-- Why a handler turns a payload away. -/
inductive ParseError where
  | truncated

/-- The address of the message, if the payload is not shorter than its struct. -/
def checkedCast (size p : Nat) (len : UInt16) : Except ParseError Nat :=
  if len.toNat < size then .error .truncated else .ok p

/-- How far `run` has come: the offset of `p` from `buf`, the engine, the statistics, and the
offsets of the bytes loaded so far. -/
structure Progress (σ : Type) where
  cursor : Nat
  engine : σ
  stats : Stats
  loads : List Nat

/-- How an iteration of the loop ends. -/
inductive Iteration (σ : Type) where
  | continues (s : Progress σ)
  | breaks (s : Progress σ)

/-- How far the loop has come, whether it goes on or not. -/
def Iteration.progress {σ : Type} : Iteration σ → Progress σ
  | .continues s => s
  | .breaks s => s

section

variable {σ : Type} (on : σ → Call → σ) (buf : List UInt8)

/-- The body of a handler on the payload at `p`. -/
def handle (h : Handler) (p : Nat) (len : UInt16) (s : Progress σ) : Progress σ :=
  match checkedCast h.size p len with
  | .error .truncated => { s with stats := s.stats.onTruncated }
  | .ok m =>
      { s with
        engine := (h.decode.value (buf.drop m)).elim s.engine (on s.engine)
        loads := s.loads ++ h.decode.offsets.map (m + ·) }

/-- `dispatch`: the message is counted before its handler looks at the payload. -/
def dispatch (type : UInt8) (payload : Nat) (payloadLen : UInt16) (s : Progress σ) : Progress σ :=
  let s := { s with stats := s.stats.onMessage type payloadLen.toUInt32 }
  match handlerOf type with
  | some h => handle on buf h payload payloadLen s
  | none => { s with stats := s.stats.onParseError }

/-- An iteration of the loop. -/
def iteration (s : Progress σ) : Iteration σ :=
  let payloadLen := loadBe16 (bytesAt s.cursor 2 buf)
  let p := s.cursor + 2
  let s := { s with cursor := p, loads := s.loads ++ [s.cursor, s.cursor + 1] }
  if p + payloadLen.toNat > buf.length then
    -- the cursor stays behind the prefix
    .breaks { s with stats := s.stats.onParseError }
  else if payloadLen = 0 then
    .continues { s with stats := s.stats.onParseError }
  else
    let type := byteAt p buf
    let s := { s with loads := s.loads ++ [p] }
    let s := dispatch on buf type p payloadLen s
    .continues { s with cursor := p + payloadLen.toNat }

/-- At most `n` iterations of the loop. -/
def loop : Nat → Progress σ → Progress σ
  | 0, s => s
  | n + 1, s =>
      if s.cursor + 2 ≤ buf.length then
        match iteration on buf s with
        | .continues s' => loop n s'
        | .breaks s' => s'
      else s

/-- The loop leaves `s` with the progress `s'`. -/
inductive Leaves : Progress σ → Progress σ → Prop where
  | done {s : Progress σ} (hguard : ¬ s.cursor + 2 ≤ buf.length) : Leaves s s
  | breaks {s s' : Progress σ} (hguard : s.cursor + 2 ≤ buf.length)
      (hiter : iteration on buf s = .breaks s') : Leaves s s'
  | continues {s t s' : Progress σ} (hguard : s.cursor + 2 ≤ buf.length)
      (hiter : iteration on buf s = .continues t) (hrest : Leaves t s') : Leaves s s'

/-- `run`. An iteration takes at least two bytes, so there are never more iterations than bytes
(`run_leaves`). The cursor of the result is what `run` returns. -/
def run (engine : σ) (stats : Stats) : Progress σ :=
  loop on buf buf.length ⟨0, engine, stats, []⟩

end
end Parser
end ItchParser
