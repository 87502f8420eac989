import Mathlib.Data.Vector.Defs
import GoTrader.Persistence.Wire

/-!
# ITCH 5.0 messages and their decoders

The message layer of package `itch` (`handler.go`): what a message is, what the handler is
called with, and how each of the twenty `parse*` methods reads its fields.

* `Header` and the twenty message structures, field for field; `[n]byte` fields are
  `Mathlib.Vector UInt8 n`, filled as Go's `copy` fills a zeroed array (`copyBytes`);
* `Call` — one `Handler` method call; `Handler σ` — an implementation of the interface, with
  whatever state `σ` it keeps; `Error` — the `error` values the package compares;
* `Decoder` — the shape all twenty `parse*` methods share: a fixed `size` and the message
  literal; `Decoder.run` is their common body (`len(data) < size` gives `ErrInsufficientData`);
  `parseSystemEvent` … `parseRPII` are its twenty members, and `decoderFor` is `Parse`'s
  `switch` from type byte to member;
* `itchSize` — the protocol's size table, stated apart from the code; `decoderFor_size` — the
  code's `size` constants are that table;
* `Decoder.decode_append` — every member reads only the first `size` bytes: a message followed
  by anything decodes as the message alone.

Byte strings are `List UInt8`; `data[i]` is `data.getD i 0` and `data[i:j]` is
`GoTrader.Persistence.slice`, both only read at indices the `size` check has made valid.
-/

namespace GoTrader.Itch

open GoTrader.Persistence (slice beValue)

/-! ## Message types -/

/-- Source: `handler.go` `MessageTypeSystemEvent` (`'S'`). Kind: D -/
def messageTypeSystemEvent : UInt8 := 83
/-- Source: `handler.go` `MessageTypeStockDirectory` (`'R'`). Kind: D -/
def messageTypeStockDirectory : UInt8 := 82
/-- Source: `handler.go` `MessageTypeStockTradingAction` (`'H'`). Kind: D -/
def messageTypeStockTradingAction : UInt8 := 72
/-- Source: `handler.go` `MessageTypeRegSHO` (`'Y'`). Kind: D -/
def messageTypeRegSHO : UInt8 := 89
/-- Source: `handler.go` `MessageTypeMarketParticipantPos` (`'L'`). Kind: D -/
def messageTypeMarketParticipantPos : UInt8 := 76
/-- Source: `handler.go` `MessageTypeMWCBDecline` (`'V'`). Kind: D -/
def messageTypeMWCBDecline : UInt8 := 86
/-- Source: `handler.go` `MessageTypeMWCBStatus` (`'W'`). Kind: D -/
def messageTypeMWCBStatus : UInt8 := 87
/-- Source: `handler.go` `MessageTypeIPOQuoting` (`'K'`). Kind: D -/
def messageTypeIPOQuoting : UInt8 := 75
/-- Source: `handler.go` `MessageTypeAddOrder` (`'A'`). Kind: D -/
def messageTypeAddOrder : UInt8 := 65
/-- Source: `handler.go` `MessageTypeAddOrderMPID` (`'F'`). Kind: D -/
def messageTypeAddOrderMPID : UInt8 := 70
/-- Source: `handler.go` `MessageTypeOrderExecuted` (`'E'`). Kind: D -/
def messageTypeOrderExecuted : UInt8 := 69
/-- Source: `handler.go` `MessageTypeOrderExecutedWithPrice` (`'C'`). Kind: D -/
def messageTypeOrderExecutedWithPrice : UInt8 := 67
/-- Source: `handler.go` `MessageTypeOrderCancel` (`'X'`). Kind: D -/
def messageTypeOrderCancel : UInt8 := 88
/-- Source: `handler.go` `MessageTypeOrderDelete` (`'D'`). Kind: D -/
def messageTypeOrderDelete : UInt8 := 68
/-- Source: `handler.go` `MessageTypeOrderReplace` (`'U'`). Kind: D -/
def messageTypeOrderReplace : UInt8 := 85
/-- Source: `handler.go` `MessageTypeTrade` (`'P'`). Kind: D -/
def messageTypeTrade : UInt8 := 80
/-- Source: `handler.go` `MessageTypeCrossTrade` (`'Q'`). Kind: D -/
def messageTypeCrossTrade : UInt8 := 81
/-- Source: `handler.go` `MessageTypeBrokenTrade` (`'B'`). Kind: D -/
def messageTypeBrokenTrade : UInt8 := 66
/-- Source: `handler.go` `MessageTypeNOII` (`'I'`). Kind: D -/
def messageTypeNOII : UInt8 := 73
/-- Source: `handler.go` `MessageTypeRPII` (`'N'`). Kind: D -/
def messageTypeRPII : UInt8 := 78

/-! ## Messages -/

/-- The four fields every message starts with: `Type`, `StockLocate`, `TrackingNumber`,
`Timestamp`.
Source: `handler.go` (the first four fields of each `*Message` struct)
Kind: D
Fidelity: exact -/
structure Header where
  type : UInt8
  stockLocate : UInt16
  trackingNumber : UInt16
  timestamp : UInt64
deriving DecidableEq, Repr

/-- Source: `handler.go` `SystemEventMessage`. Kind: D. Fidelity: exact -/
structure SystemEventMessage extends Header where
  eventCode : UInt8
deriving DecidableEq

/-- Source: `handler.go` `StockDirectoryMessage`. Kind: D. Fidelity: exact -/
structure StockDirectoryMessage extends Header where
  stock : Mathlib.Vector UInt8 8
  marketCategory : UInt8
  financialStatusIndicator : UInt8
  roundLotSize : UInt32
  roundLotsOnly : UInt8
  issueClassification : UInt8
  issueSubType : Mathlib.Vector UInt8 2
  authenticity : UInt8
  shortSaleThresholdIndicator : UInt8
  ipoFlag : UInt8
  luldReferencePriceTier : UInt8
  etpFlag : UInt8
  etpLeverageFactor : UInt32
  inverseIndicator : UInt8
deriving DecidableEq

/-- Source: `handler.go` `StockTradingActionMessage`. Kind: D. Fidelity: exact -/
structure StockTradingActionMessage extends Header where
  stock : Mathlib.Vector UInt8 8
  tradingState : UInt8
  reserved : UInt8
  reason : UInt8
deriving DecidableEq

/-- Source: `handler.go` `RegSHOMessage`. Kind: D. Fidelity: exact -/
structure RegSHOMessage extends Header where
  stock : Mathlib.Vector UInt8 8
  regSHOAction : UInt8
deriving DecidableEq

/-- Source: `handler.go` `MarketParticipantPositionMessage`. Kind: D. Fidelity: exact -/
structure MarketParticipantPositionMessage extends Header where
  mpid : Mathlib.Vector UInt8 4
  stock : Mathlib.Vector UInt8 8
  primaryMarketMaker : UInt8
  marketMakerMode : UInt8
  marketParticipantState : UInt8
deriving DecidableEq

/-- Source: `handler.go` `MWCBDeclineMessage`. Kind: D. Fidelity: exact -/
structure MWCBDeclineMessage extends Header where
  level1 : UInt64
  level2 : UInt64
  level3 : UInt64
deriving DecidableEq

/-- Source: `handler.go` `MWCBStatusMessage`. Kind: D. Fidelity: exact -/
structure MWCBStatusMessage extends Header where
  breachedLevel : UInt8
deriving DecidableEq

/-- Source: `handler.go` `IPOQuotingMessage`. Kind: D. Fidelity: exact -/
structure IPOQuotingMessage extends Header where
  stock : Mathlib.Vector UInt8 8
  ipoReleaseTime : UInt32
  ipoReleaseQualifier : UInt8
  ipoPrice : UInt32
deriving DecidableEq

/-- Source: `handler.go` `AddOrderMessage`. Kind: D. Fidelity: exact -/
structure AddOrderMessage extends Header where
  orderReferenceNumber : UInt64
  buySellIndicator : UInt8
  shares : UInt32
  stock : Mathlib.Vector UInt8 8
  price : UInt32
deriving DecidableEq

/-- Source: `handler.go` `AddOrderMPIDMessage`. Kind: D. Fidelity: exact -/
structure AddOrderMPIDMessage extends Header where
  orderReferenceNumber : UInt64
  buySellIndicator : UInt8
  shares : UInt32
  stock : Mathlib.Vector UInt8 8
  price : UInt32
  attribution : UInt8
deriving DecidableEq

/-- Source: `handler.go` `OrderExecutedMessage`. Kind: D. Fidelity: exact -/
structure OrderExecutedMessage extends Header where
  orderReferenceNumber : UInt64
  executedShares : UInt32
  matchNumber : UInt64
deriving DecidableEq

/-- Source: `handler.go` `OrderExecutedWithPriceMessage`. Kind: D. Fidelity: exact -/
structure OrderExecutedWithPriceMessage extends Header where
  orderReferenceNumber : UInt64
  executedShares : UInt32
  matchNumber : UInt64
  printable : UInt8
  executionPrice : UInt32
deriving DecidableEq

/-- Source: `handler.go` `OrderCancelMessage`. Kind: D. Fidelity: exact -/
structure OrderCancelMessage extends Header where
  orderReferenceNumber : UInt64
  canceledShares : UInt32
deriving DecidableEq

/-- Source: `handler.go` `OrderDeleteMessage`. Kind: D. Fidelity: exact -/
structure OrderDeleteMessage extends Header where
  orderReferenceNumber : UInt64
deriving DecidableEq

/-- Source: `handler.go` `OrderReplaceMessage`. Kind: D. Fidelity: exact -/
structure OrderReplaceMessage extends Header where
  originalOrderReferenceNumber : UInt64
  newOrderReferenceNumber : UInt64
  shares : UInt32
  price : UInt32
deriving DecidableEq

/-- Source: `handler.go` `TradeMessage`. Kind: D. Fidelity: exact -/
structure TradeMessage extends Header where
  orderReferenceNumber : UInt64
  buySellIndicator : UInt8
  shares : UInt32
  stock : Mathlib.Vector UInt8 8
  price : UInt32
  matchNumber : UInt64
deriving DecidableEq

/-- Source: `handler.go` `CrossTradeMessage`. Kind: D. Fidelity: exact -/
structure CrossTradeMessage extends Header where
  shares : UInt64
  stock : Mathlib.Vector UInt8 8
  crossPrice : UInt32
  matchNumber : UInt64
  crossType : UInt8
deriving DecidableEq

/-- Source: `handler.go` `BrokenTradeMessage`. Kind: D. Fidelity: exact -/
structure BrokenTradeMessage extends Header where
  matchNumber : UInt64
deriving DecidableEq

/-- Source: `handler.go` `NOIIMessage`. Kind: D. Fidelity: exact -/
structure NOIIMessage extends Header where
  pairedShares : UInt64
  imbalanceShares : UInt64
  imbalanceDirection : UInt8
  stock : Mathlib.Vector UInt8 8
  farPrice : UInt32
  nearPrice : UInt32
  currentRefPrice : UInt32
  crossType : UInt8
  priceVariationIndicator : UInt8
deriving DecidableEq

/-- Source: `handler.go` `RPIIMessage`. Kind: D. Fidelity: exact -/
structure RPIIMessage extends Header where
  stock : Mathlib.Vector UInt8 8
  interestFlag : UInt8
deriving DecidableEq

/-! ## The handler -/

/-- One call of a `Handler` method, with its arguments.
Source: `handler.go` `Handler`
Kind: D
Fidelity: exact -/
inductive Call where
  | onSystemEvent (msg : SystemEventMessage)
  | onStockDirectory (msg : StockDirectoryMessage)
  | onStockTradingAction (msg : StockTradingActionMessage)
  | onRegSHO (msg : RegSHOMessage)
  | onMarketParticipantPosition (msg : MarketParticipantPositionMessage)
  | onMWCBDecline (msg : MWCBDeclineMessage)
  | onMWCBStatus (msg : MWCBStatusMessage)
  | onIPOQuoting (msg : IPOQuotingMessage)
  | onAddOrder (msg : AddOrderMessage)
  | onAddOrderMPID (msg : AddOrderMPIDMessage)
  | onOrderExecuted (msg : OrderExecutedMessage)
  | onOrderExecutedWithPrice (msg : OrderExecutedWithPriceMessage)
  | onOrderCancel (msg : OrderCancelMessage)
  | onOrderDelete (msg : OrderDeleteMessage)
  | onOrderReplace (msg : OrderReplaceMessage)
  | onTrade (msg : TradeMessage)
  | onCrossTrade (msg : CrossTradeMessage)
  | onBrokenTrade (msg : BrokenTradeMessage)
  | onNOII (msg : NOIIMessage)
  | onRPII (msg : RPIIMessage)
  | onUnknownMessage (msgType : UInt8) (data : List UInt8)
deriving DecidableEq

/-- The `error` values the package produces or compares: `ErrInsufficientData`, the two errors
of `io.ReadFull`, and any other error a handler method returns.
Source: `handler.go` `ErrInsufficientData`; Go `io` `EOF`, `ErrUnexpectedEOF`
Kind: D
Fidelity: abstracted (a handler's own errors are numbered) -/
inductive Error where
  | insufficientData
  | read (e : GoTrader.Persistence.ReadError)
  | other (code : Nat)
deriving DecidableEq, Repr

/-- An implementation of `Handler`: each method call takes the handler's state and gives its
new state and the `error` it returns (`none` for `nil`).
Source: `handler.go` `Handler`
Kind: D
Fidelity: exact -/
structure Handler (σ : Type) where
  call : σ → Call → σ × Option Error

/-- `DefaultHandler`: every method returns `nil`.
Source: `handler.go` `DefaultHandler`
Kind: D
Fidelity: exact -/
def defaultHandler : Handler Unit := ⟨fun s _ => (s, none)⟩

/-! ## Reading fields -/

/-- Source: `handler.go` `readUint16BE` (`binary.BigEndian.Uint16`). Kind: D. Fidelity: exact -/
def readUint16BE (data : List UInt8) : UInt16 := UInt16.ofNat (beValue (data.take 2))

/-- Source: `handler.go` `readUint32BE` (`binary.BigEndian.Uint32`). Kind: D. Fidelity: exact -/
def readUint32BE (data : List UInt8) : UInt32 := UInt32.ofNat (beValue (data.take 4))

/-- Source: `handler.go` `readUint48BE`. Kind: D. Fidelity: exact -/
def readUint48BE (data : List UInt8) : UInt64 :=
  (data.getD 0 0).toUInt64 <<< 40 ||| (data.getD 1 0).toUInt64 <<< 32 |||
    (data.getD 2 0).toUInt64 <<< 24 ||| (data.getD 3 0).toUInt64 <<< 16 |||
    (data.getD 4 0).toUInt64 <<< 8 ||| (data.getD 5 0).toUInt64

/-- Source: `handler.go` `readUint64BE` (`binary.BigEndian.Uint64`). Kind: D. Fidelity: exact -/
def readUint64BE (data : List UInt8) : UInt64 := UInt64.ofNat (beValue (data.take 8))

/-- `copy(dst[:], src)` into a zeroed `[n]byte`: the first bytes of `src`, then zeros.
Source: Go `copy`
Kind: D
Fidelity: exact -/
def copyBytes (n : Nat) (src : List UInt8) : Mathlib.Vector UInt8 n :=
  ⟨src.take n ++ List.replicate (n - src.length) 0,
    (by simp only [List.length_append, List.length_take, List.length_replicate]; omega)⟩

/-- The four header fields, as every `parse*` method reads them.
Source: `handler.go` (`Type: data[0]` … `Timestamp: readUint48BE(data[5:11])`)
Kind: D
Fidelity: exact -/
def readHeader (data : List UInt8) : Header :=
  ⟨data.getD 0 0, readUint16BE (slice data 1 3), readUint16BE (slice data 3 5),
    readUint48BE (slice data 5 11)⟩

/-! ## The twenty decoders -/

/-- A `parse*` method: its `size` constant and the handler call it builds from `data`.
Source: `handler.go` `(*Parser).parseSystemEvent` … `(*Parser).parseRPII`
Kind: D -/
structure Decoder where
  size : Nat
  decode : List UInt8 → Call

/-- The body all `parse*` methods share: `ErrInsufficientData` on fewer than `size` bytes,
else `size` bytes consumed and the call to make.
Source: `handler.go` `(*Parser).parseSystemEvent` … `(*Parser).parseRPII`
Kind: D
Fidelity: exact (the handler call itself is made by `parse`) -/
def Decoder.run (d : Decoder) (data : List UInt8) : Except Error (Nat × Call) :=
  if data.length < d.size then .error .insufficientData else .ok (d.size, d.decode data)

/-- Source: `handler.go` `(*Parser).parseSystemEvent`. Kind: D. Fidelity: exact -/
def parseSystemEvent : Decoder :=
  ⟨12, fun data => .onSystemEvent { readHeader data with eventCode := data.getD 11 0 }⟩

/-- Source: `handler.go` `(*Parser).parseStockDirectory`. Kind: D. Fidelity: exact -/
def parseStockDirectory : Decoder :=
  ⟨39, fun data => .onStockDirectory { readHeader data with
    marketCategory := data.getD 19 0
    financialStatusIndicator := data.getD 20 0
    roundLotSize := readUint32BE (slice data 21 25)
    roundLotsOnly := data.getD 25 0
    issueClassification := data.getD 26 0
    authenticity := data.getD 29 0
    shortSaleThresholdIndicator := data.getD 30 0
    ipoFlag := data.getD 31 0
    luldReferencePriceTier := data.getD 32 0
    etpFlag := data.getD 33 0
    etpLeverageFactor := readUint32BE (slice data 34 38)
    inverseIndicator := data.getD 38 0
    stock := copyBytes 8 (slice data 11 19)
    issueSubType := copyBytes 2 (slice data 27 29) }⟩

/-- Source: `handler.go` `(*Parser).parseStockTradingAction`. Kind: D. Fidelity: exact -/
def parseStockTradingAction : Decoder :=
  ⟨25, fun data => .onStockTradingAction { readHeader data with
    tradingState := data.getD 19 0
    reserved := data.getD 20 0
    reason := data.getD 21 0
    stock := copyBytes 8 (slice data 11 19) }⟩

/-- Source: `handler.go` `(*Parser).parseRegSHO`. Kind: D. Fidelity: exact -/
def parseRegSHO : Decoder :=
  ⟨20, fun data => .onRegSHO { readHeader data with
    regSHOAction := data.getD 19 0
    stock := copyBytes 8 (slice data 11 19) }⟩

/-- Source: `handler.go` `(*Parser).parseMarketParticipantPosition`. Kind: D. Fidelity: exact -/
def parseMarketParticipantPosition : Decoder :=
  ⟨26, fun data => .onMarketParticipantPosition { readHeader data with
    primaryMarketMaker := data.getD 23 0
    marketMakerMode := data.getD 24 0
    marketParticipantState := data.getD 25 0
    mpid := copyBytes 4 (slice data 11 15)
    stock := copyBytes 8 (slice data 15 23) }⟩

/-- Source: `handler.go` `(*Parser).parseMWCBDecline`. Kind: D. Fidelity: exact -/
def parseMWCBDecline : Decoder :=
  ⟨35, fun data => .onMWCBDecline { readHeader data with
    level1 := readUint64BE (slice data 11 19)
    level2 := readUint64BE (slice data 19 27)
    level3 := readUint64BE (slice data 27 35) }⟩

/-- Source: `handler.go` `(*Parser).parseMWCBStatus`. Kind: D. Fidelity: exact -/
def parseMWCBStatus : Decoder :=
  ⟨12, fun data => .onMWCBStatus { readHeader data with breachedLevel := data.getD 11 0 }⟩

/-- Source: `handler.go` `(*Parser).parseIPOQuoting`. Kind: D. Fidelity: exact -/
def parseIPOQuoting : Decoder :=
  ⟨28, fun data => .onIPOQuoting { readHeader data with
    ipoReleaseTime := readUint32BE (slice data 19 23)
    ipoReleaseQualifier := data.getD 23 0
    ipoPrice := readUint32BE (slice data 24 28)
    stock := copyBytes 8 (slice data 11 19) }⟩

/-- Source: `handler.go` `(*Parser).parseAddOrder`. Kind: D. Fidelity: exact -/
def parseAddOrder : Decoder :=
  ⟨36, fun data => .onAddOrder { readHeader data with
    orderReferenceNumber := readUint64BE (slice data 11 19)
    buySellIndicator := data.getD 19 0
    shares := readUint32BE (slice data 20 24)
    price := readUint32BE (slice data 32 36)
    stock := copyBytes 8 (slice data 24 32) }⟩

/-- Source: `handler.go` `(*Parser).parseAddOrderMPID`. Kind: D. Fidelity: exact -/
def parseAddOrderMPID : Decoder :=
  ⟨40, fun data => .onAddOrderMPID { readHeader data with
    orderReferenceNumber := readUint64BE (slice data 11 19)
    buySellIndicator := data.getD 19 0
    shares := readUint32BE (slice data 20 24)
    price := readUint32BE (slice data 32 36)
    attribution := data.getD 36 0
    stock := copyBytes 8 (slice data 24 32) }⟩

/-- Source: `handler.go` `(*Parser).parseOrderExecuted`. Kind: D. Fidelity: exact -/
def parseOrderExecuted : Decoder :=
  ⟨31, fun data => .onOrderExecuted { readHeader data with
    orderReferenceNumber := readUint64BE (slice data 11 19)
    executedShares := readUint32BE (slice data 19 23)
    matchNumber := readUint64BE (slice data 23 31) }⟩

/-- Source: `handler.go` `(*Parser).parseOrderExecutedWithPrice`. Kind: D. Fidelity: exact -/
def parseOrderExecutedWithPrice : Decoder :=
  ⟨36, fun data => .onOrderExecutedWithPrice { readHeader data with
    orderReferenceNumber := readUint64BE (slice data 11 19)
    executedShares := readUint32BE (slice data 19 23)
    matchNumber := readUint64BE (slice data 23 31)
    printable := data.getD 31 0
    executionPrice := readUint32BE (slice data 32 36) }⟩

/-- Source: `handler.go` `(*Parser).parseOrderCancel`. Kind: D. Fidelity: exact -/
def parseOrderCancel : Decoder :=
  ⟨23, fun data => .onOrderCancel { readHeader data with
    orderReferenceNumber := readUint64BE (slice data 11 19)
    canceledShares := readUint32BE (slice data 19 23) }⟩

/-- Source: `handler.go` `(*Parser).parseOrderDelete`. Kind: D. Fidelity: exact -/
def parseOrderDelete : Decoder :=
  ⟨19, fun data => .onOrderDelete { readHeader data with
    orderReferenceNumber := readUint64BE (slice data 11 19) }⟩

/-- Source: `handler.go` `(*Parser).parseOrderReplace`. Kind: D. Fidelity: exact -/
def parseOrderReplace : Decoder :=
  ⟨35, fun data => .onOrderReplace { readHeader data with
    originalOrderReferenceNumber := readUint64BE (slice data 11 19)
    newOrderReferenceNumber := readUint64BE (slice data 19 27)
    shares := readUint32BE (slice data 27 31)
    price := readUint32BE (slice data 31 35) }⟩

/-- Source: `handler.go` `(*Parser).parseTrade`. Kind: D. Fidelity: exact -/
def parseTrade : Decoder :=
  ⟨44, fun data => .onTrade { readHeader data with
    orderReferenceNumber := readUint64BE (slice data 11 19)
    buySellIndicator := data.getD 19 0
    shares := readUint32BE (slice data 20 24)
    price := readUint32BE (slice data 32 36)
    matchNumber := readUint64BE (slice data 36 44)
    stock := copyBytes 8 (slice data 24 32) }⟩

/-- Source: `handler.go` `(*Parser).parseCrossTrade`. Kind: D. Fidelity: exact -/
def parseCrossTrade : Decoder :=
  ⟨40, fun data => .onCrossTrade { readHeader data with
    shares := readUint64BE (slice data 11 19)
    crossPrice := readUint32BE (slice data 27 31)
    matchNumber := readUint64BE (slice data 31 39)
    crossType := data.getD 39 0
    stock := copyBytes 8 (slice data 19 27) }⟩

/-- Source: `handler.go` `(*Parser).parseBrokenTrade`. Kind: D. Fidelity: exact -/
def parseBrokenTrade : Decoder :=
  ⟨19, fun data => .onBrokenTrade { readHeader data with
    matchNumber := readUint64BE (slice data 11 19) }⟩

/-- Source: `handler.go` `(*Parser).parseNOII`. Kind: D. Fidelity: exact -/
def parseNOII : Decoder :=
  ⟨50, fun data => .onNOII { readHeader data with
    pairedShares := readUint64BE (slice data 11 19)
    imbalanceShares := readUint64BE (slice data 19 27)
    imbalanceDirection := data.getD 27 0
    farPrice := readUint32BE (slice data 36 40)
    nearPrice := readUint32BE (slice data 40 44)
    currentRefPrice := readUint32BE (slice data 44 48)
    crossType := data.getD 48 0
    priceVariationIndicator := data.getD 49 0
    stock := copyBytes 8 (slice data 28 36) }⟩

/-- Source: `handler.go` `(*Parser).parseRPII`. Kind: D. Fidelity: exact -/
def parseRPII : Decoder :=
  ⟨20, fun data => .onRPII { readHeader data with
    interestFlag := data.getD 19 0
    stock := copyBytes 8 (slice data 11 19) }⟩

/-- The cases of `Parse`'s `switch msgType`, in source order: each type byte with its `parse*`
method.
Source: `handler.go` `(*Parser).Parse` (the `switch msgType`)
Kind: D
Fidelity: exact -/
def parsers : List (UInt8 × Decoder) :=
  [(messageTypeSystemEvent, parseSystemEvent),
   (messageTypeStockDirectory, parseStockDirectory),
   (messageTypeStockTradingAction, parseStockTradingAction),
   (messageTypeRegSHO, parseRegSHO),
   (messageTypeMarketParticipantPos, parseMarketParticipantPosition),
   (messageTypeMWCBDecline, parseMWCBDecline),
   (messageTypeMWCBStatus, parseMWCBStatus),
   (messageTypeIPOQuoting, parseIPOQuoting),
   (messageTypeAddOrder, parseAddOrder),
   (messageTypeAddOrderMPID, parseAddOrderMPID),
   (messageTypeOrderExecuted, parseOrderExecuted),
   (messageTypeOrderExecutedWithPrice, parseOrderExecutedWithPrice),
   (messageTypeOrderCancel, parseOrderCancel),
   (messageTypeOrderDelete, parseOrderDelete),
   (messageTypeOrderReplace, parseOrderReplace),
   (messageTypeTrade, parseTrade),
   (messageTypeCrossTrade, parseCrossTrade),
   (messageTypeBrokenTrade, parseBrokenTrade),
   (messageTypeNOII, parseNOII),
   (messageTypeRPII, parseRPII)]

/-- The method `Parse`'s `switch` picks for a type byte: its first case for the byte; `none` is
the `default` case.
Source: `handler.go` `(*Parser).Parse` (the `switch msgType`)
Kind: D
Fidelity: exact -/
def decoderFor (msgType : UInt8) : Option Decoder := parsers.lookup msgType

/-! ## Sizes -/

/-- The ITCH 5.0 message sizes, by type byte (`S` 12, `R` 39, `H` 25, `Y` 20, `L` 26, `V` 35,
`W` 12, `K` 28, `A` 36, `F` 40, `E` 31, `C` 36, `X` 23, `D` 19, `U` 35, `P` 44, `Q` 40, `B` 19,
`I` 50, `N` 20).
Source: none: the protocol's table
Kind: D -/
def itchSizes : List (UInt8 × Nat) :=
  [(83, 12), (82, 39), (72, 25), (89, 20), (76, 26), (86, 35), (87, 12), (75, 28), (65, 36),
   (70, 40), (69, 31), (67, 36), (88, 23), (68, 19), (85, 35), (80, 44), (81, 40), (66, 19),
   (73, 50), (78, 20)]

/-- The protocol's size of a type byte; `none` for a byte that is no message type.
Source: none: the protocol's table
Kind: D -/
def itchSize (t : UInt8) : Option Nat := itchSizes.lookup t

theorem lookup_map_snd {α β γ : Type} [BEq α] (f : β → γ) (l : List (α × β)) (a : α) :
    (l.lookup a).map f = (l.map fun p => (p.1, f p.2)).lookup a := by
  induction l with
  | nil => rfl
  | cons p l ih =>
    obtain ⟨k, v⟩ := p
    cases h : a == k <;> simp only [List.map_cons, List.lookup_cons, h, ih, Option.map_some']

theorem mem_of_lookup_eq_some {α β : Type} [BEq α] [LawfulBEq α] {l : List (α × β)} {a : α}
    {b : β} (h : l.lookup a = some b) : (a, b) ∈ l := by
  induction l with
  | nil => cases h
  | cons p l ih =>
    obtain ⟨k, v⟩ := p
    by_cases e : a = k
    · simp_all [List.lookup_cons]
    · simp_all [List.lookup_cons, beq_false_of_ne e]

/-- The `size` constants of the twenty `parse*` methods are the protocol's sizes, and `Parse`
switches to a method exactly for the twenty type bytes.
Source: `handler.go` `(*Parser).Parse`, `(*Parser).parse*`
Kind: L -/
theorem decoderFor_size (t : UInt8) : (decoderFor t).map Decoder.size = itchSize t := by
  rw [decoderFor, lookup_map_snd]
  rfl

/-! ## Decoders read only their own bytes -/

theorem slice_append_left {a t : List UInt8} {i j : Nat} (h : j ≤ a.length) :
    slice (a ++ t) i j = slice a i j := by
  by_cases hi : i ≤ a.length
  · rw [GoTrader.Persistence.slice, GoTrader.Persistence.slice,
      List.drop_append_of_le_length hi,
      List.take_append_of_le_length (by simp only [List.length_drop]; omega)]
  · simp [GoTrader.Persistence.slice, show j - i = 0 by omega]

theorem getD_append_left {a t : List UInt8} {i : Nat} (h : i < a.length) :
    (a ++ t).getD i 0 = a.getD i 0 := by
  simp [List.getD_eq_getElem?_getD, List.getElem?_append_left h]

/-- Every `parse*` method reads only the first `size` bytes of `data`: on a message followed by
anything it builds the message's own call.
Source: `handler.go` `(*Parser).parseSystemEvent` … `(*Parser).parseRPII`
Kind: L -/
theorem Decoder.decode_append {t : UInt8} {d : Decoder} (hd : decoderFor t = some d)
    {m : List UInt8} (hm : d.size ≤ m.length) (rest : List UInt8) :
    d.decode (m ++ rest) = d.decode m := by
  have hall : ∀ p ∈ parsers, ∀ m : List UInt8, p.2.size ≤ m.length → ∀ rest,
      p.2.decode (m ++ rest) = p.2.decode m := by
    simp only [parsers, List.mem_cons, List.mem_nil_iff, or_false, forall_eq_or_imp, forall_eq]
    refine ⟨?_, ?_, ?_, ?_, ?_, ?_, ?_, ?_, ?_, ?_, ?_, ?_, ?_, ?_, ?_, ?_, ?_, ?_, ?_, ?_⟩ <;>
      intro m hm rest <;>
      dsimp only [parseSystemEvent, parseStockDirectory, parseStockTradingAction, parseRegSHO,
        parseMarketParticipantPosition, parseMWCBDecline, parseMWCBStatus, parseIPOQuoting,
        parseAddOrder, parseAddOrderMPID, parseOrderExecuted, parseOrderExecutedWithPrice,
        parseOrderCancel, parseOrderDelete, parseOrderReplace, parseTrade, parseCrossTrade,
        parseBrokenTrade, parseNOII, parseRPII] at hm ⊢ <;>
      simp (disch := omega) only [readHeader, slice_append_left, getD_append_left]
  exact hall _ (mem_of_lookup_eq_some hd) m hm rest

end GoTrader.Itch
