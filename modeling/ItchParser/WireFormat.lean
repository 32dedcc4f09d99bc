import ItchParser.Lib.PackedRecord
import ItchParser.Types

/-!
# WireFormat: packed message layouts

The model of `WireFormat.hpp`. Every struct is packed, so a field starts where the one before it
stops, and the fields of a message start after the common header.
-/

namespace ItchParser

open PackedRecord

namespace CommonHeader
def messageType : Field := ⟨0, 1⟩
def stockLocateHi : Field := messageType.next 1
def stockLocateLo : Field := stockLocateHi.next 1
def trackingHi : Field := stockLocateLo.next 1
def trackingLo : Field := trackingHi.next 1
def ts : Field := trackingLo.next 6
def size : Nat := ts.stop
end CommonHeader

namespace SystemEventMsg
def eventCode : Field := CommonHeader.ts.next 1
def size : Nat := eventCode.stop
end SystemEventMsg

namespace StockDirectoryMsg
def stock : Field := CommonHeader.ts.next 8
def marketCategory : Field := stock.next 1
def financialStatusIndicator : Field := marketCategory.next 1
def roundLotSize : Field := financialStatusIndicator.next 4
def roundLotsOnly : Field := roundLotSize.next 1
def issueClassification : Field := roundLotsOnly.next 1
def issueSubType : Field := issueClassification.next 2
def authenticity : Field := issueSubType.next 1
def shortScaleThresholdIndicator : Field := authenticity.next 1
def ipoFlag : Field := shortScaleThresholdIndicator.next 1
def luldReferencePriceTier : Field := ipoFlag.next 1
def etpFlag : Field := luldReferencePriceTier.next 1
def etpLeverageFactor : Field := etpFlag.next 4
def inverseIndicator : Field := etpLeverageFactor.next 1
def size : Nat := inverseIndicator.stop
end StockDirectoryMsg

namespace StockTradingActionMsg
def stock : Field := CommonHeader.ts.next 8
def tradingState : Field := stock.next 1
def reserved : Field := tradingState.next 1
def reason : Field := reserved.next 4
def size : Nat := reason.stop
end StockTradingActionMsg

namespace RegSHOMsg
def stock : Field := CommonHeader.ts.next 8
def regSHOAction : Field := stock.next 1
def size : Nat := regSHOAction.stop
end RegSHOMsg

namespace MarketParticipantPositionMsg
def mpid : Field := CommonHeader.ts.next 4
def stock : Field := mpid.next 8
def primaryMarketMaker : Field := stock.next 1
def marketMakerMode : Field := primaryMarketMaker.next 1
def marketParticipantState : Field := marketMakerMode.next 1
def size : Nat := marketParticipantState.stop
end MarketParticipantPositionMsg

namespace MWCBDeclineLevelMsg
def level1 : Field := CommonHeader.ts.next 8
def level2 : Field := level1.next 8
def level3 : Field := level2.next 8
def size : Nat := level3.stop
end MWCBDeclineLevelMsg

namespace MWCBStatusMsg
def breachedLevel : Field := CommonHeader.ts.next 1
def size : Nat := breachedLevel.stop
end MWCBStatusMsg

namespace IPOQuotingPeriodUpdateMsg
def stock : Field := CommonHeader.ts.next 8
def ipoQuotationReleaseTime : Field := stock.next 4
def ipoQuotationReleaseQualifier : Field := ipoQuotationReleaseTime.next 1
def ipoPrice : Field := ipoQuotationReleaseQualifier.next 4
def size : Nat := ipoPrice.stop
end IPOQuotingPeriodUpdateMsg

namespace LULDAuctionCollarMsg
def stock : Field := CommonHeader.ts.next 8
def auctionCollarReferencePrice : Field := stock.next 4
def upperAuctionCollarPrice : Field := auctionCollarReferencePrice.next 4
def lowerAuctionCollarPrice : Field := upperAuctionCollarPrice.next 4
def auctionCollarExtension : Field := lowerAuctionCollarPrice.next 4
def size : Nat := auctionCollarExtension.stop
end LULDAuctionCollarMsg

namespace OperationalHaltMsg
def stock : Field := CommonHeader.ts.next 8
def marketCode : Field := stock.next 1
def operationHaltAction : Field := marketCode.next 1
def size : Nat := operationHaltAction.stop
end OperationalHaltMsg

namespace AddOrderMsg
def orderReferenceNumber : Field := CommonHeader.ts.next 8
def buySellIndicator : Field := orderReferenceNumber.next 1
def shares : Field := buySellIndicator.next 4
def stock : Field := shares.next 8
def price : Field := stock.next 4
def size : Nat := price.stop
end AddOrderMsg

namespace AddOrderMPIDMsg
def orderReferenceNumber : Field := CommonHeader.ts.next 8
def buySellIndicator : Field := orderReferenceNumber.next 1
def shares : Field := buySellIndicator.next 4
def stock : Field := shares.next 8
def price : Field := stock.next 4
def attribution : Field := price.next 4
def size : Nat := attribution.stop
end AddOrderMPIDMsg

namespace OrderExecutedMsg
def orderReferenceNumber : Field := CommonHeader.ts.next 8
def executedShares : Field := orderReferenceNumber.next 4
def matchNumber : Field := executedShares.next 8
def size : Nat := matchNumber.stop
end OrderExecutedMsg

namespace OrderExecutedWithPriceMsg
def orderReferenceNumber : Field := CommonHeader.ts.next 8
def executedShares : Field := orderReferenceNumber.next 4
def matchNumber : Field := executedShares.next 8
def printable : Field := matchNumber.next 1
def executionPrice : Field := printable.next 4
def size : Nat := executionPrice.stop
end OrderExecutedWithPriceMsg

namespace OrderCancelMsg
def orderReferenceNumber : Field := CommonHeader.ts.next 8
def cancelledShares : Field := orderReferenceNumber.next 4
def size : Nat := cancelledShares.stop
end OrderCancelMsg

namespace OrderDeleteMsg
def orderReferenceNumber : Field := CommonHeader.ts.next 8
def size : Nat := orderReferenceNumber.stop
end OrderDeleteMsg

namespace OrderReplaceMsg
def originalOrderReferenceNumber : Field := CommonHeader.ts.next 8
def newOrderReferenceNumber : Field := originalOrderReferenceNumber.next 8
def shares : Field := newOrderReferenceNumber.next 4
def price : Field := shares.next 4
def size : Nat := price.stop
end OrderReplaceMsg

namespace NonCrossTradeMsg
def orderReferenceNumber : Field := CommonHeader.ts.next 8
def buySellIndicator : Field := orderReferenceNumber.next 1
def shares : Field := buySellIndicator.next 4
def stock : Field := shares.next 8
def price : Field := stock.next 4
def matchNumber : Field := price.next 8
def size : Nat := matchNumber.stop
end NonCrossTradeMsg

namespace CrossTradeMsg
def shares : Field := CommonHeader.ts.next 8
def stock : Field := shares.next 8
def crossPrice : Field := stock.next 4
def matchNumber : Field := crossPrice.next 8
def crossType : Field := matchNumber.next 1
def size : Nat := crossType.stop
end CrossTradeMsg

namespace BrokenTradeMsg
def matchNumber : Field := CommonHeader.ts.next 8
def size : Nat := matchNumber.stop
end BrokenTradeMsg

namespace NOIIMsg
def pairedShares : Field := CommonHeader.ts.next 8
def imbalanceShares : Field := pairedShares.next 8
def imbalanceDirection : Field := imbalanceShares.next 1
def stock : Field := imbalanceDirection.next 8
def farPrice : Field := stock.next 4
def nearPrice : Field := farPrice.next 4
def currentReferencePrice : Field := nearPrice.next 4
def crossType : Field := currentReferencePrice.next 1
def priceVariationIndicator : Field := crossType.next 1
def size : Nat := priceVariationIndicator.stop
end NOIIMsg

namespace RetailPriceImprovementIndicatorMsg
def stock : Field := CommonHeader.ts.next 8
def interestFlag : Field := stock.next 1
def size : Nat := interestFlag.stop
end RetailPriceImprovementIndicatorMsg

namespace DLCRMsg
def stock : Field := CommonHeader.ts.next 8
def openEligibilityStatus : Field := stock.next 1
def minimumAllowablePrice : Field := openEligibilityStatus.next 4
def maximumAllowablePrice : Field := minimumAllowablePrice.next 4
def nearExecutionPrice : Field := maximumAllowablePrice.next 4
def nearExecutionTime : Field := nearExecutionPrice.next 8
def lowerPriceRangeCollar : Field := nearExecutionTime.next 4
def upperPriceRangeCollar : Field := lowerPriceRangeCollar.next 4
def size : Nat := upperPriceRangeCollar.stop
end DLCRMsg

/-! ## Message type registry -/

/-- A message type and the size of its struct. -/
structure MsgMeta where
  type : UInt8
  size : Nat

/-- The table of the message types. -/
def kMsgMeta : List MsgMeta :=
  [⟨ascii 'S', SystemEventMsg.size⟩,
    ⟨ascii 'R', StockDirectoryMsg.size⟩,
    ⟨ascii 'H', StockTradingActionMsg.size⟩,
    ⟨ascii 'Y', RegSHOMsg.size⟩,
    ⟨ascii 'L', MarketParticipantPositionMsg.size⟩,
    ⟨ascii 'V', MWCBDeclineLevelMsg.size⟩,
    ⟨ascii 'W', MWCBStatusMsg.size⟩,
    ⟨ascii 'K', IPOQuotingPeriodUpdateMsg.size⟩,
    ⟨ascii 'J', LULDAuctionCollarMsg.size⟩,
    ⟨ascii 'h', OperationalHaltMsg.size⟩,
    ⟨ascii 'A', AddOrderMsg.size⟩,
    ⟨ascii 'F', AddOrderMPIDMsg.size⟩,
    ⟨ascii 'E', OrderExecutedMsg.size⟩,
    ⟨ascii 'C', OrderExecutedWithPriceMsg.size⟩,
    ⟨ascii 'X', OrderCancelMsg.size⟩,
    ⟨ascii 'D', OrderDeleteMsg.size⟩,
    ⟨ascii 'U', OrderReplaceMsg.size⟩,
    ⟨ascii 'P', NonCrossTradeMsg.size⟩,
    ⟨ascii 'Q', CrossTradeMsg.size⟩,
    ⟨ascii 'B', BrokenTradeMsg.size⟩,
    ⟨ascii 'I', NOIIMsg.size⟩,
    ⟨ascii 'N', RetailPriceImprovementIndicatorMsg.size⟩,
    ⟨ascii 'O', DLCRMsg.size⟩]

/-- The size of the struct of a type, 0 for a byte that is no type. -/
def wirePayloadSize (type : UInt8) : Nat :=
  match kMsgMeta.find? fun m => m.type = type with
  | some m => m.size
  | none => 0

/-- The sizes that the source asserts. -/
example : kMsgMeta.map MsgMeta.size =
    [12, 39, 25, 20, 26, 35, 12, 28, 35, 21, 36, 40, 31, 36, 23, 19, 35, 44, 40, 19, 50, 20,
      48] := by
  decide

end ItchParser
