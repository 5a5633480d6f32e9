import SmartQuantCollector.Exchange.Pipelines
import SmartQuantCollector.RithmicGateway.ImageProvenance

/-! # `MyCallbacks` (`src/rithmic_gateway/rithmic_callbacks.cpp`)

The market data callbacks of the gateway with the books they keep. A text comes from the API as a
pointer and a length; what lies in memory behind the text is part of the model, since `Init` of a
book reads on to the next zero byte. Null pointers that are read make a callback fail (`none`).
Callbacks come from one thread, and the queues they push to are lists of what was pushed. -/

namespace Sqc

open Concurrency RithmicOrderBook

/-! ## Texts -/

/-- `tsNCharcb`: a pointer, given by the memory from it on, and a length. -/
structure NCharcb where
  pData : Option (Nat → UInt8)
  iDataLen : Nat

/-- `std::string_view`. -/
structure StringView where
  data : Option (Nat → UInt8)
  size : Nat

def StringView.bytes (v : StringView) : List UInt8 :=
  match v.data with
  | none => []
  | some data => (List.range v.size).map data

/-- The length without trailing blanks. -/
def trimmedSize (data : Nat → UInt8) : Nat → Nat
  | 0 => 0
  | n + 1 => if data n = ' '.toUInt8 then trimmedSize data n else n + 1

def toSv (s : NCharcb) : StringView :=
  match s.pData with
  | none => ⟨none, 0⟩
  | some data => ⟨some data, trimmedSize data s.iDataLen⟩

/-- `CopySymbol` into a symbol that is all zeros. -/
def MyCallbacks.copySymbol (src : StringView) : SymbolChars :=
  Vector.ofFn fun i => if i.val < 11 then src.bytes.getD i 0 else 0

/-- Where the loops of `Init` and `SnapshotTo` stop: at a zero byte or after eleven bytes. -/
def symbolLength (src : Nat → UInt8) : Nat :=
  ((List.range 11).takeWhile fun i => src i ≠ 0).length

/-- The loops of `Init` and `SnapshotTo`, with the zero that they put behind. -/
def copyUntilZero (dst : SymbolChars) (src : Nat → UInt8) : SymbolChars :=
  Vector.ofFn fun i =>
    if i.val < symbolLength src then src i else if i.val = symbolLength src then 0 else dst.get i

/-! ## Channel ids of texts -/

/-- `ComputeChannelId` of byte strings. -/
def computeChannelIdOfBytes (exchange typeName symbol : List UInt8) : UInt32 :=
  let h := exchange.foldl fnvRound kBasis
  let h := fnvRound h ':'.toUInt8
  let h := typeName.foldl fnvRound h
  let h := fnvRound h ':'.toUInt8
  let h := symbol.foldl fnvRound h
  (h ^^^ (h >>> 32)).toUInt32

def RithmicChannelMap.lookupBytes (map : RithmicChannelMap) (exchange ticker : List UInt8) :
    UInt32 :=
  let id := computeChannelIdOfBytes exchange "futures".toUTF8.toList ticker
  if map.registeredIds id then id else kNotFound

/-! ## Timestamps -/

/-- `SsboeConverter::ToEpochMicros`. -/
def toEpochMicros (ssboe usecs : Int32) : UInt64 :=
  ssboe.toInt64.toUInt64 * 1000000 + usecs.toInt64.toUInt64

def resolveRithmicExchangeTimestamp (rawTs : UInt64) (bidCount askCount : Nat) (now : UInt64) :
    Option UInt64 :=
  if rawTs ≠ 0 then some rawTs
  else if bidCount = 0 ∧ askCount = 0 then none
  else some now

/-! ## Events and callbacks -/

structure DepthEvent (P Q : Type) where
  channelId : UInt32
  exchangeTimestamp : UInt64
  localDiff : UInt64
  symbol : SymbolChars
  bids : List (Level P Q)
  asks : List (Level P Q)

structure TickEvent (P Q : Type) where
  channelId : UInt32
  exchangeTimestamp : UInt64
  localDiff : UInt64
  symbol : SymbolChars
  price : P
  quantity : Q
  isBuyerMaker : Bool

structure QuoteEvent (P Q : Type) where
  channelId : UInt32
  exchangeTimestamp : UInt64
  localDiff : UInt64
  symbol : SymbolChars
  bestBidPrice : P
  bestBidQty : Q
  bestAskPrice : P
  bestAskQty : Q

/-- What every callback carries, and what it reads from the clocks. -/
structure CallHeader where
  sExchange : NCharcb
  sTicker : NCharcb
  iSsboe : Int32
  iUsecs : Int32
  systemMicros : UInt64
  steadyNs : UInt64

structure TradeInfo (P : Type) where
  dPrice : P
  llSize : Int64
  sAggressorSide : NCharcb

/-- `BestBidAskQuote` takes its header from the bid. `TradeCondition` is `TradePrint`. -/
inductive GatewayCall (P : Type) where
  | book (header : CallHeader) (c : Callback P)
  | tradePrint (header : CallHeader) (info : TradeInfo P)
  | bestBidAskQuote (header : CallHeader) (bid ask : QuoteInfo P)

def GatewayCall.header {P : Type} : GatewayCall P → CallHeader
  | .book header _ | .tradePrint header _ | .bestBidAskQuote header _ _ => header

namespace CallHeader

def ticker (header : CallHeader) : StringView := toSv header.sTicker

/-- The channel that the exchange and the ticker resolve to. -/
def channelId (map : RithmicChannelMap) (header : CallHeader) : UInt32 :=
  map.lookupBytes (toSv header.sExchange).bytes header.ticker.bytes

def timestamp (header : CallHeader) : UInt64 := toEpochMicros header.iSsboe header.iUsecs

end CallHeader

/-- A book with its identity. -/
structure BookSlot (P Q : Type) where
  channelId : UInt32
  symbol : SymbolChars
  levels : RithmicOrderBook P Q

structure MyCallbacks (P Q : Type) where
  books : UInt8 → BookSlot P Q
  channelToBook : UInt32 → Option UInt8
  bookCount : Nat
  depthQueue : List (DepthEvent P Q)
  tickQueue : List (TickEvent P Q)
  bookTickerQueue : List (QuoteEvent P Q)

namespace BookSlot

variable {P Q : Type}

/-- `RithmicOrderBook::Init`. -/
def init (book : BookSlot P Q) (channelId : UInt32) (symbol : Nat → UInt8) : BookSlot P Q :=
  { book with channelId := channelId, symbol := copyUntilZero book.symbol symbol }

def snapshotTo (book : BookSlot P Q) (exchangeTs localDiff : UInt64) : DepthEvent P Q where
  channelId := book.channelId
  exchangeTimestamp := exchangeTs
  localDiff := localDiff
  symbol := copyUntilZero (.replicate 12 0) (book.symbol.toList.getD · 0)
  bids := book.levels.bids.toList
  asks := book.levels.asks.toList

end BookSlot

namespace MyCallbacks

def kMaxBooks : Nat := 8

variable {P Q : Type}

def init [Zero P] [Zero Q] : MyCallbacks P Q where
  books _ := ⟨0, .replicate 12 0, .init⟩
  channelToBook _ := none
  bookCount := 0
  depthQueue := []
  tickQueue := []
  bookTickerQueue := []

/-- The slow path of `FindBook`. -/
def addBook (s : MyCallbacks P Q) (channelId : UInt32) (symbol : Nat → UInt8) : MyCallbacks P Q :=
  let idx := UInt8.ofNat s.bookCount
  { s with
    books := Function.update s.books idx ((s.books idx).init channelId symbol)
    channelToBook := Function.update s.channelToBook channelId (some idx)
    bookCount := s.bookCount + 1 }

/-- `FindBook`: the book of the channel, if there is one or a slot for one. -/
def findBook (map : RithmicChannelMap) (s : MyCallbacks P Q) (header : CallHeader) :
    Option (MyCallbacks P Q × Option UInt8) :=
  let channelId := header.channelId map
  if channelId = RithmicChannelMap.kNotFound then some (s, none)
  else match s.channelToBook channelId with
    | some idx => some (s, some idx)
    | none =>
      if kMaxBooks ≤ s.bookCount then some (s, none)
      else header.ticker.data.map fun symbol =>
        (s.addBook channelId symbol, some (UInt8.ofNat s.bookCount))

/-- A book is written back to its slot. -/
def setLevels (s : MyCallbacks P Q) (idx : UInt8) (levels : RithmicOrderBook P Q) :
    MyCallbacks P Q :=
  { s with books := Function.update s.books idx { s.books idx with levels := levels } }

def pushSnapshot (s : MyCallbacks P Q) (book : BookSlot P Q) (header : CallHeader) :
    MyCallbacks P Q :=
  (resolveRithmicExchangeTimestamp header.timestamp book.levels.bids.count
    book.levels.asks.count header.systemMicros).elim s fun ts =>
      { s with depthQueue := s.depthQueue ++ [book.snapshotTo ts header.steadyNs] }

end MyCallbacks

/-- Whether a callback calls `PushSnapshot`. -/
def Callback.pushes {P Q : Type} (b : RithmicOrderBook P Q) : Callback P → Bool
  | .quote (.askQuote info) | .quote (.bidQuote info) =>
    match UpdateType.ofCode info.iUpdateType with
    | .solo | .end_ | .clear => true
    | .begin | .middle | .other => false
  | .quote .endQuote => b.batchActive
  | .limitOrderBook _ => true

namespace MyCallbacks

variable {P Q : Type} [LinearOrder P] [LinearOrder Q] [Zero Q]

/-- The part of a book callback under the lock of the book. -/
def onBook (sc : SizeCast Q) (maxDepthLevels : UInt32) (s : MyCallbacks P Q) (idx : UInt8)
    (header : CallHeader) (c : Callback P) : Option (MyCallbacks P Q) := do
  let levels ← callback sc maxDepthLevels (s.books idx).levels c
  let t := s.setLevels idx levels
  return if c.pushes (s.books idx).levels then t.pushSnapshot (t.books idx) header else t

/-- `LimitOrderBook`, `AskQuote`, `BidQuote` and `EndQuote`. -/
def bookCall (map : RithmicChannelMap) (sc : SizeCast Q) (maxDepthLevels : UInt32)
    (s : MyCallbacks P Q) (header : CallHeader) (c : Callback P) : Option (MyCallbacks P Q) :=
  (findBook map s header).bind fun
    | (s, none) => some s
    | (s, some idx) => onBook sc maxDepthLevels s idx header c

omit [LinearOrder P] in
def tradePrint (map : RithmicChannelMap) (sc : SizeCast Q) (s : MyCallbacks P Q)
    (header : CallHeader) (info : TradeInfo P) : MyCallbacks P Q :=
  let channelId := header.channelId map
  if channelId = RithmicChannelMap.kNotFound then s
  else { s with tickQueue := s.tickQueue ++ [{
    channelId := channelId
    exchangeTimestamp := header.timestamp
    localDiff := header.steadyNs
    symbol := copySymbol header.ticker
    price := info.dPrice
    quantity := sc.cast info.llSize
    isBuyerMaker := (toSv info.sAggressorSide).bytes = "S".toUTF8.toList }] }

omit [LinearOrder P] in
def bestBidAskQuote [Zero P] (map : RithmicChannelMap) (sc : SizeCast Q) (s : MyCallbacks P Q)
    (header : CallHeader) (bid ask : QuoteInfo P) : MyCallbacks P Q :=
  let channelId := header.channelId map
  if channelId = RithmicChannelMap.kNotFound then s
  else { s with bookTickerQueue := s.bookTickerQueue ++ [{
    channelId := channelId
    exchangeTimestamp := header.timestamp
    localDiff := header.steadyNs
    symbol := copySymbol header.ticker
    bestBidPrice := if bid.bPriceFlag then bid.dPrice else 0
    bestBidQty := if bid.bSizeFlag then sc.cast bid.llSize else 0
    bestAskPrice := if ask.bPriceFlag then ask.dPrice else 0
    bestAskQty := if ask.bSizeFlag then sc.cast ask.llSize else 0 }] }

/-- The gateway with a channel map, callback by callback. -/
def machine [Zero P] (map : RithmicChannelMap) (sc : SizeCast Q) (maxDepthLevels : UInt32) :
    Machine (MyCallbacks P Q) (GatewayCall P) where
  init := init
  step s
    | .book header c => bookCall map sc maxDepthLevels s header c
    | .tradePrint header info => some (tradePrint map sc s header info)
    | .bestBidAskQuote header bid ask => some (bestBidAskQuote map sc s header bid ask)

end MyCallbacks
end Sqc
