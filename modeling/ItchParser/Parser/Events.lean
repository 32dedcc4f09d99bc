import ItchParser.Parser.Tally

/-!
# Events on the wire

The events that lead to a call of the engine, with all fields of their messages, the payload that
carries them, and the call that they mean. A message is an event whose payload may be padded. The
parser makes of the frame of a message the call of its event (`Message.call_frame`).
-/

namespace ItchParser

open BigEndian PackedRecord

/-- The fields that every message has. -/
structure EventHeader where
  stockLocate : UInt16
  trackingNumber : UInt16
  timestamp : BitVec 48

/-- The fields behind the header, by type of message and in wire order. -/
inductive EventFields where
  | stockDirectory (stock : Vector UInt8 8) (marketCategory : UInt8)
      (financialStatusIndicator : UInt8) (roundLotSize : UInt32) (roundLotsOnly : UInt8)
      (issueClassification : UInt8) (issueSubType : Vector UInt8 2) (authenticity : UInt8)
      (shortScaleThresholdIndicator : UInt8) (ipoFlag : UInt8) (luldReferencePriceTier : UInt8)
      (etpFlag : UInt8) (etpLeverageFactor : UInt32) (inverseIndicator : UInt8)
  | stockTradingAction (stock : Vector UInt8 8) (tradingState : UInt8) (reserved : UInt8)
      (reason : Vector UInt8 4)
  | regSho (stock : Vector UInt8 8) (regSHOAction : UInt8)
  | addOrder (orderReferenceNumber : UInt64) (buySellIndicator : UInt8) (shares : UInt32)
      (stock : Vector UInt8 8) (price : UInt32)
  | addOrderMpid (orderReferenceNumber : UInt64) (buySellIndicator : UInt8) (shares : UInt32)
      (stock : Vector UInt8 8) (price : UInt32) (attribution : Vector UInt8 4)
  | orderExecuted (orderReferenceNumber : UInt64) (executedShares : UInt32) (matchNumber : UInt64)
  | orderExecutedWithPrice (orderReferenceNumber : UInt64) (executedShares : UInt32)
      (matchNumber : UInt64) (printable : UInt8) (executionPrice : UInt32)
  | orderCancel (orderReferenceNumber : UInt64) (cancelledShares : UInt32)
  | orderDelete (orderReferenceNumber : UInt64)
  | orderReplace (originalOrderReferenceNumber : UInt64) (newOrderReferenceNumber : UInt64)
      (shares : UInt32) (price : UInt32)
  | nonCrossTrade (orderReferenceNumber : UInt64) (buySellIndicator : UInt8) (shares : UInt32)
      (stock : Vector UInt8 8) (price : UInt32) (matchNumber : UInt64)
  | crossTrade (shares : UInt64) (stock : Vector UInt8 8) (crossPrice : UInt32)
      (matchNumber : UInt64) (crossType : UInt8)
  | brokenTrade (matchNumber : UInt64)

/-- A message: its header and the fields of its type. -/
structure Event where
  hdr : EventHeader
  fields : EventFields

/-! ## Encoding -/

/-- Two bytes in network order. -/
def encode16 (v : UInt16) : List UInt8 := toBytes 2 v.toNat

/-- Four bytes in network order. -/
def encode32 (v : UInt32) : List UInt8 := toBytes 4 v.toNat

/-- Eight bytes in network order. -/
def encode64 (v : UInt64) : List UInt8 := toBytes 8 v.toNat

/-- The common header of a message of a type. -/
def EventHeader.encode (type : Char) (hdr : EventHeader) : List UInt8 :=
  [ascii type] ++ encode16 hdr.stockLocate ++ encode16 hdr.trackingNumber ++
    toBytes 6 hdr.timestamp.toNat

namespace EventFields

/-- The type of the message. -/
def type : EventFields → Char
  | stockDirectory .. => 'R'
  | stockTradingAction .. => 'H'
  | regSho .. => 'Y'
  | addOrder .. => 'A'
  | addOrderMpid .. => 'F'
  | orderExecuted .. => 'E'
  | orderExecutedWithPrice .. => 'C'
  | orderCancel .. => 'X'
  | orderDelete .. => 'D'
  | orderReplace .. => 'U'
  | nonCrossTrade .. => 'P'
  | crossTrade .. => 'Q'
  | brokenTrade .. => 'B'

/-- The bytes of the fields. -/
def encode : EventFields → List UInt8
  | stockDirectory stock marketCategory financialStatusIndicator roundLotSize roundLotsOnly
      issueClassification issueSubType authenticity shortScaleThresholdIndicator ipoFlag
      luldReferencePriceTier etpFlag etpLeverageFactor inverseIndicator =>
      stock.toList ++ [marketCategory] ++ [financialStatusIndicator] ++ encode32 roundLotSize ++
        [roundLotsOnly] ++ [issueClassification] ++ issueSubType.toList ++ [authenticity] ++
        [shortScaleThresholdIndicator] ++ [ipoFlag] ++ [luldReferencePriceTier] ++ [etpFlag] ++
        encode32 etpLeverageFactor ++ [inverseIndicator]
  | stockTradingAction stock tradingState reserved reason =>
      stock.toList ++ [tradingState] ++ [reserved] ++ reason.toList
  | regSho stock regSHOAction => stock.toList ++ [regSHOAction]
  | addOrder orderReferenceNumber buySellIndicator shares stock price =>
      encode64 orderReferenceNumber ++ [buySellIndicator] ++ encode32 shares ++ stock.toList ++
        encode32 price
  | addOrderMpid orderReferenceNumber buySellIndicator shares stock price attribution =>
      encode64 orderReferenceNumber ++ [buySellIndicator] ++ encode32 shares ++ stock.toList ++
        encode32 price ++ attribution.toList
  | orderExecuted orderReferenceNumber executedShares matchNumber =>
      encode64 orderReferenceNumber ++ encode32 executedShares ++ encode64 matchNumber
  | orderExecutedWithPrice orderReferenceNumber executedShares matchNumber printable
      executionPrice =>
      encode64 orderReferenceNumber ++ encode32 executedShares ++ encode64 matchNumber ++
        [printable] ++ encode32 executionPrice
  | orderCancel orderReferenceNumber cancelledShares =>
      encode64 orderReferenceNumber ++ encode32 cancelledShares
  | orderDelete orderReferenceNumber => encode64 orderReferenceNumber
  | orderReplace originalOrderReferenceNumber newOrderReferenceNumber shares price =>
      encode64 originalOrderReferenceNumber ++ encode64 newOrderReferenceNumber ++
        encode32 shares ++ encode32 price
  | nonCrossTrade orderReferenceNumber buySellIndicator shares stock price matchNumber =>
      encode64 orderReferenceNumber ++ [buySellIndicator] ++ encode32 shares ++ stock.toList ++
        encode32 price ++ encode64 matchNumber
  | crossTrade shares stock crossPrice matchNumber crossType =>
      encode64 shares ++ stock.toList ++ encode32 crossPrice ++ encode64 matchNumber ++ [crossType]
  | brokenTrade matchNumber => encode64 matchNumber

/-- The call of the engine that the event means. -/
def call (hdr : EventHeader) : EventFields → Call
  | stockDirectory stock marketCategory financialStatusIndicator roundLotSize roundLotsOnly _ _
      authenticity shortScaleThresholdIndicator ipoFlag luldReferencePriceTier etpFlag
      etpLeverageFactor inverseIndicator =>
      .stockDirectory hdr.stockLocate stock marketCategory financialStatusIndicator roundLotSize
        roundLotsOnly authenticity shortScaleThresholdIndicator ipoFlag luldReferencePriceTier
        etpFlag etpLeverageFactor inverseIndicator
  | stockTradingAction stock tradingState _ reason =>
      .tradingAction hdr.stockLocate tradingState stock reason
  | regSho _ regSHOAction => .regSho hdr.stockLocate regSHOAction
  | addOrder orderReferenceNumber buySellIndicator shares _ price =>
      .addOrder hdr.stockLocate orderReferenceNumber buySellIndicator shares price
        (UInt64.ofNat hdr.timestamp.toNat) MPID.blank false
  | addOrderMpid orderReferenceNumber buySellIndicator shares _ price attribution =>
      .addOrder hdr.stockLocate orderReferenceNumber buySellIndicator shares price
        (UInt64.ofNat hdr.timestamp.toNat) attribution true
  | orderExecuted orderReferenceNumber executedShares matchNumber =>
      .orderExecuted hdr.stockLocate orderReferenceNumber executedShares matchNumber
  | orderExecutedWithPrice orderReferenceNumber executedShares matchNumber printable
      executionPrice =>
      .orderExecutedWithPrice hdr.stockLocate orderReferenceNumber executedShares matchNumber
        printable executionPrice
  | orderCancel orderReferenceNumber cancelledShares =>
      .orderCancel hdr.stockLocate orderReferenceNumber cancelledShares
  | orderDelete orderReferenceNumber => .orderDelete hdr.stockLocate orderReferenceNumber
  | orderReplace originalOrderReferenceNumber newOrderReferenceNumber shares price =>
      .orderReplace hdr.stockLocate originalOrderReferenceNumber newOrderReferenceNumber shares
        price (UInt64.ofNat hdr.timestamp.toNat)
  | nonCrossTrade _ _ shares _ price matchNumber =>
      .nonCrossTrade hdr.stockLocate shares price matchNumber
  | crossTrade _ _ _ _ crossType => .crossTrade hdr.stockLocate crossType
  | brokenTrade matchNumber => .brokenTrade hdr.stockLocate matchNumber

/-- The handler of the type. -/
def handler : EventFields → Handler
  | stockDirectory .. => Parser.handleStockDirectory
  | stockTradingAction .. => Parser.handleStockTradingAction
  | regSho .. => Parser.handleRegSho
  | addOrder .. => Parser.handleAddOrder false
  | addOrderMpid .. => Parser.handleAddOrder true
  | orderExecuted .. => Parser.handleOrderExecuted
  | orderExecutedWithPrice .. => Parser.handleOrderExecutedPrice
  | orderCancel .. => Parser.handleOrderCancel
  | orderDelete .. => Parser.handleOrderDelete
  | orderReplace .. => Parser.handleOrderReplace
  | nonCrossTrade .. => Parser.handleNonCrossTrade
  | crossTrade .. => Parser.handleCrossTrade
  | brokenTrade .. => Parser.handleBrokenTrade

end EventFields

/-- The payload, without padding. -/
def Event.encode (ev : Event) : List UInt8 :=
  ev.hdr.encode ev.fields.type ++ ev.fields.encode

/-- The call that a message stands for. -/
def Event.call (ev : Event) : Call := ev.fields.call ev.hdr

/-! ## Decoding -/

section

variable {rest : List UInt8}

@[simp] theorem length_encode16 (v : UInt16) : (encode16 v).length = 2 := length_toBytes _ _

@[simp] theorem length_encode32 (v : UInt32) : (encode32 v).length = 4 := length_toBytes _ _

@[simp] theorem length_encode64 (v : UInt64) : (encode64 v).length = 8 := length_toBytes _ _

@[simp] theorem loadBe16_encode16 (v : UInt16) :
    loadBe16 (bytesAt 0 2 (encode16 v ++ rest)) = v := by
  rw [loadBe16_eq, encode16, toList_bytesAt (length_toBytes _ _),
    ofBytes_toBytes_of_lt v.toNat_lt, UInt16.ofNat_toNat]

@[simp] theorem loadBe32_encode32 (v : UInt32) :
    loadBe32 (bytesAt 0 4 (encode32 v ++ rest)) = v := by
  rw [loadBe32_eq, encode32, toList_bytesAt (length_toBytes _ _),
    ofBytes_toBytes_of_lt v.toNat_lt, UInt32.ofNat_toNat]

@[simp] theorem loadBe64_encode64 (v : UInt64) :
    loadBe64 (bytesAt 0 8 (encode64 v ++ rest)) = v := by
  rw [loadBe64_eq, encode64, toList_bytesAt (length_toBytes _ _),
    ofBytes_toBytes_of_lt v.toNat_lt, UInt64.ofNat_toNat]

@[simp] theorem loadBe48_toBytes (v : BitVec 48) :
    loadBe48 (bytesAt 0 6 (toBytes 6 v.toNat ++ rest)) = UInt64.ofNat v.toNat := by
  rw [loadBe48_eq, toList_bytesAt (length_toBytes _ _), ofBytes_toBytes_of_lt v.isLt]

@[simp] theorem EventHeader.length_encode (type : Char) (hdr : EventHeader) :
    (hdr.encode type).length = 11 := by
  simp [EventHeader.encode]

@[simp] theorem EventHeader.locate_encode (type : Char) (hdr : EventHeader) :
    loadBe16 (bytesAt 1 2 (hdr.encode type ++ rest)) = hdr.stockLocate := by
  simp [EventHeader.encode]

@[simp] theorem EventHeader.timestamp_encode (type : Char) (hdr : EventHeader) :
    loadBe48 (bytesAt 5 6 (hdr.encode type ++ rest)) = UInt64.ofNat hdr.timestamp.toNat := by
  simp [EventHeader.encode]

end

namespace EventFields

/-- Every message has the handler of its type. -/
theorem handlerOf_type (fields : EventFields) :
    Parser.handlerOf (ascii fields.type) = some fields.handler := by
  cases fields <;> rfl

/-- A message is as long as its struct. -/
theorem length_encode (fields : EventFields) :
    11 + fields.encode.length = fields.handler.size := by
  cases fields <;> simp [encode] <;> rfl

/-- Whatever follows the fields, the handler decodes the call. The left side of each `change` shows
the offsets that it uses. -/
theorem decode_encode (hdr : EventHeader) (fields : EventFields) (rest : List UInt8) :
    fields.handler.decode.value (hdr.encode fields.type ++ (fields.encode ++ rest)) =
      some (fields.call hdr) := by
  generalize hbs : hdr.encode fields.type ++ (fields.encode ++ rest) = bs
  cases fields with
  | stockDirectory =>
      change some (Call.stockDirectory (loadBe16 (bytesAt 1 2 bs)) (bytesAt 11 8 bs)
        (byteAt 19 bs) (byteAt 20 bs) (loadBe32 (bytesAt 21 4 bs)) (byteAt 25 bs)
        (byteAt 29 bs) (byteAt 30 bs) (byteAt 31 bs) (byteAt 32 bs)
        (byteAt 33 bs) (loadBe32 (bytesAt 34 4 bs)) (byteAt 38 bs)) = _
      simp [← hbs, encode, type, call]
  | stockTradingAction =>
      change some (Call.tradingAction (loadBe16 (bytesAt 1 2 bs)) (byteAt 19 bs)
        (bytesAt 11 8 bs) (bytesAt 21 4 bs)) = _
      simp [← hbs, encode, type, call]
  | regSho =>
      change some (Call.regSho (loadBe16 (bytesAt 1 2 bs)) (byteAt 19 bs)) = _
      simp [← hbs, encode, type, call]
  | addOrder =>
      change some (Call.addOrder (loadBe16 (bytesAt 1 2 bs)) (loadBe64 (bytesAt 11 8 bs))
        (byteAt 19 bs) (loadBe32 (bytesAt 20 4 bs)) (loadBe32 (bytesAt 32 4 bs))
        (loadBe48 (bytesAt 5 6 bs)) MPID.blank false) = _
      simp [← hbs, encode, type, call]
  | addOrderMpid =>
      change some (Call.addOrder (loadBe16 (bytesAt 1 2 bs)) (loadBe64 (bytesAt 11 8 bs))
        (byteAt 19 bs) (loadBe32 (bytesAt 20 4 bs)) (loadBe32 (bytesAt 32 4 bs))
        (loadBe48 (bytesAt 5 6 bs)) (bytesAt 36 4 bs) true) = _
      simp [← hbs, encode, type, call]
  | orderExecuted =>
      change some (Call.orderExecuted (loadBe16 (bytesAt 1 2 bs)) (loadBe64 (bytesAt 11 8 bs))
        (loadBe32 (bytesAt 19 4 bs)) (loadBe64 (bytesAt 23 8 bs))) = _
      simp [← hbs, encode, type, call]
  | orderExecutedWithPrice =>
      change some (Call.orderExecutedWithPrice (loadBe16 (bytesAt 1 2 bs))
        (loadBe64 (bytesAt 11 8 bs)) (loadBe32 (bytesAt 19 4 bs)) (loadBe64 (bytesAt 23 8 bs))
        (byteAt 31 bs) (loadBe32 (bytesAt 32 4 bs))) = _
      simp [← hbs, encode, type, call]
  | orderCancel =>
      change some (Call.orderCancel (loadBe16 (bytesAt 1 2 bs)) (loadBe64 (bytesAt 11 8 bs))
        (loadBe32 (bytesAt 19 4 bs))) = _
      simp [← hbs, encode, type, call]
  | orderDelete =>
      change some (Call.orderDelete (loadBe16 (bytesAt 1 2 bs)) (loadBe64 (bytesAt 11 8 bs))) = _
      simp [← hbs, encode, type, call]
  | orderReplace =>
      change some (Call.orderReplace (loadBe16 (bytesAt 1 2 bs)) (loadBe64 (bytesAt 11 8 bs))
        (loadBe64 (bytesAt 19 8 bs)) (loadBe32 (bytesAt 27 4 bs)) (loadBe32 (bytesAt 31 4 bs))
        (loadBe48 (bytesAt 5 6 bs))) = _
      simp [← hbs, encode, type, call]
  | nonCrossTrade =>
      change some (Call.nonCrossTrade (loadBe16 (bytesAt 1 2 bs)) (loadBe32 (bytesAt 20 4 bs))
        (loadBe32 (bytesAt 32 4 bs)) (loadBe64 (bytesAt 36 8 bs))) = _
      simp [← hbs, encode, type, call]
  | crossTrade =>
      change some (Call.crossTrade (loadBe16 (bytesAt 1 2 bs)) (byteAt 39 bs)) = _
      simp [← hbs, encode, type, call]
  | brokenTrade =>
      change some (Call.brokenTrade (loadBe16 (bytesAt 1 2 bs)) (loadBe64 (bytesAt 11 8 bs))) = _
      simp [← hbs, encode, type, call]

end EventFields

/-! ## Messages -/

/-- An event and the padding behind its payload. -/
structure Message where
  event : Event
  padding : List UInt8
  fits : (event.encode ++ padding).length ≤ 65535

namespace Message

/-- The frame that carries the message. -/
def frame (m : Message) : Frame where
  payload := m.event.encode ++ m.padding
  fits := Nat.lt_succ_of_le m.fits

/-- The frame of a message is well-formed and leads to the call of its event. -/
theorem call_frame (m : Message) : m.frame.WellFormed ∧ m.frame.call = some m.event.call := by
  have hpayload : m.frame.payload =
      m.event.hdr.encode m.event.fields.type ++ (m.event.fields.encode ++ m.padding) :=
    List.append_assoc _ _ _
  have hsize : m.event.fields.handler.size ≤ m.frame.payload.length := by
    rw [hpayload, List.length_append, List.length_append, EventHeader.length_encode,
      ← m.event.fields.length_encode]
    omega
  have hcall := Frame.call_eq hpayload m.event.fields.handlerOf_type hsize
  rwa [hpayload, EventFields.decode_encode] at hcall

end Message
end ItchParser
