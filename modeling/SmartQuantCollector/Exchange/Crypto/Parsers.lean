import SmartQuantCollector.Common.StringUtils
import SmartQuantCollector.Exchange.Crypto.CryptoPipeline
import SmartQuantCollector.Lib.CappedScan
import SmartQuantCollector.Lib.JsonTree

/-! # The parsers of the adapters (`src/exchange/crypto/json_parse_helpers.h`,
`src/exchange/crypto/binance/`, `src/exchange/crypto/gateio/`)

The functions that fill in an event from a document. One that returns false and one that throws a
`simdjson_error`, which its caller catches, have the result `none`. The channel id is set by
`ExchangeAdapter.parse`. `Json.ofTrees` is the reading of messages, of which the crypto pipeline is
a function, that these parsers give. -/

namespace Sqc
open JsonTree

variable (num : Doubles)

/-! ## Helpers -/

def msToUs (ms : UInt64) : UInt64 := ms * 1000

/-- A pass through the loop of `ParsePositionalLevelArray`: it throws, goes on to the next level or
stores one. -/
def positionalLevel (level : Value) : Option (Option PriceLevel) :=
  match level with
  | .array [] => some none
  | .array (price :: rest) =>
    match price.getString with
    | none => none
    | some sv =>
      match num.svToDouble sv, rest with
      | none, _ | some _, [] => some none
      | some p, qty :: _ => qty.getString.map fun sv => (num.svToDouble sv).map (PriceLevel.mk p)
  | _ => none

def parsePositionalLevelArray (arr : List Value) (maxLevels : Nat) : Option (List PriceLevel) :=
  CappedScan.scan (positionalLevel num) maxLevels arr []

/-- The levels at the front of the zeroed array of an event. -/
def levelSlots (levels : List PriceLevel) : Vector PriceLevel kMaxOrderbookLevels :=
  Vector.ofFn fun i => levels.getD i default

def depthEvent (exchangeTimestamp lastUpdateId : UInt64) (bids asks : List PriceLevel) :
    DepthUpdateEvent :=
  { (default : DepthUpdateEvent) with
    exchangeTimestamp, lastUpdateId
    bids := levelSlots bids
    bidCount := UInt32.ofNat bids.length
    asks := levelSlots asks
    askCount := UInt32.ofNat asks.length }

/-! ## Binance -/

namespace Binance

def peekEventType (doc : Value) : EventType :=
  match doc.getField "e" with
  | none => if (doc.getField "lastUpdateId").isSome then .depth else .bookTicker
  | some e =>
    match e.getString with
    | none => .unknown
    | some ev =>
      if ev = "trade" ∨ ev = "aggTrade" then .tick
      else if ev = "depthUpdate" then .depth
      else if ev = "bookTicker" then .bookTicker
      else .unknown

def parseTradeEvent (doc : Value) : Option TickData := do
  let exchangeTimestamp ← doc.int64At "E"
  let tradeId ← doc.int64At "a"
  let price ← (← doc.stringAt "p") |> num.svToDouble
  let quantity ← (← doc.stringAt "q") |> num.svToDouble
  let isBuyerMaker ← doc.boolAt "m"
  return { (default : TickData) with
    exchangeTimestamp := exchangeTimestamp.toUInt64
    tradeId := tradeId.toUInt64
    price, quantity, isBuyerMaker }

/-- The prices and quantities of a book ticker. -/
def parseBestPrices (doc : Value) : Option BookTickerEvent := do
  let bestBidPrice ← (← doc.stringAt "b") |> num.svToDouble
  let bestBidQty ← (← doc.stringAt "B") |> num.svToDouble
  let bestAskPrice ← (← doc.stringAt "a") |> num.svToDouble
  let bestAskQty ← (← doc.stringAt "A") |> num.svToDouble
  return { (default : BookTickerEvent) with bestBidPrice, bestBidQty, bestAskPrice, bestAskQty }

def parseBookTickerEvent (doc : Value) : Option BookTickerEvent := do
  let event ← parseBestPrices num doc
  let eventTime ← doc.int64At "E"
  return { event with exchangeTimestamp := msToUs eventTime.toUInt64 }

def parseSpotBookTickerEvent (doc : Value) (clock : UInt64) : Option BookTickerEvent := do
  let event ← parseBestPrices num doc
  return { event with exchangeTimestamp := clock }

end Binance

def BinanceSpot.parsePartialDepth (doc : Value) (clock : UInt64) : Option DepthUpdateEvent := do
  let lastUpdateId ← doc.uint64At "lastUpdateId"
  let bids ← parsePositionalLevelArray num (← doc.arrayAt "bids") kMaxOrderbookLevels
  let asks ← parsePositionalLevelArray num (← doc.arrayAt "asks") kMaxOrderbookLevels
  return depthEvent clock lastUpdateId bids asks

namespace BinancePerpetual

/-- Trades of the futures API have their time in milliseconds. -/
def parseTrade (doc : Value) : Option TickData := do
  let tick ← Binance.parseTradeEvent num doc
  return { tick with exchangeTimestamp := msToUs tick.exchangeTimestamp }

def parseDepthEvent (doc : Value) : Option DepthUpdateEvent := do
  let eventTime ← doc.int64At "E"
  let lastUpdateId ← doc.int64At "u"
  let bids ← parsePositionalLevelArray num (← doc.arrayAt "b") kMaxOrderbookLevels
  let asks ← parsePositionalLevelArray num (← doc.arrayAt "a") kMaxOrderbookLevels
  return depthEvent (msToUs eventTime.toUInt64) lastUpdateId.toUInt64 bids asks

end BinancePerpetual

/-! ## Gate.io -/

namespace Gateio

def peekEventType (market : String) (doc : Value) : EventType :=
  match doc.stringAt "channel" with
  | none => .unknown
  | some channel =>
    let channel := channel.toUTF8.toList
    let market := market.toUTF8.toList
    let suffix := channel.drop (market.length + 1)
    if channel.length ≤ market.length + 1 then .unknown
    else if channel.take market.length ≠ market then .unknown
    else if suffix = "trades".toUTF8.toList then .tick
    else if suffix = "order_book".toUTF8.toList then .depth
    else if suffix = "book_ticker".toUTF8.toList then .bookTicker
    else .unknown

/-- A read whose result is cast to `void`; nothing is thrown for it. -/
def ignored {α : Type} (_read : Option α) : Option Unit := some ()

def skipTimeEnvelope (doc : Value) : Option Unit := do
  ignored (doc.uint64At "time")
  ignored (doc.uint64At "time_ms")

@[simp]
theorem skipTimeEnvelope_eq (doc : Value) : skipTimeEnvelope doc = some () := rfl

/-- A text that is no number counts as zero. -/
def parseQuantity (field : Value) : Option Double :=
  match field.getString with
  | some sv => some ((num.svToDouble sv).getD 0)
  | none => field.getInt64.map num.ofInt64

def parseBookTickerEvent (doc : Value) : Option BookTickerEvent := do
  skipTimeEnvelope doc
  let ev ← doc.stringAt "event"
  if ev ≠ "update" then none
  else
    let result ← doc.getField "result"
    let t ← result.uint64At "t"
    let bestBidPrice ← (← result.stringAt "b") |> num.svToDouble
    let bestBidQty ← parseQuantity num (← result.getField "B")
    let bestAskPrice ← (← result.stringAt "a") |> num.svToDouble
    let bestAskQty ← parseQuantity num (← result.getField "A")
    return { (default : BookTickerEvent) with
      exchangeTimestamp := msToUs t
      bestBidPrice, bestBidQty, bestAskPrice, bestAskQty }

/-- A quantity that is a number: a numeral as a whole, or an integer. -/
def entireQuantity : Value → Option Double
  | .string sv => num.entire sv
  | field => field.getInt64.map num.ofInt64

variable {num} in
theorem parseQuantity_of_entire {field : Value} {d : Double}
    (h : entireQuantity num field = some d) : parseQuantity num field = some d := by
  cases field with
  | string sv =>
    show some ((num.svToDouble sv).getD 0) = some d
    rw [Doubles.svToDouble_of_entire h]
    rfl
  | _ => exact h

/-- The absolute value, as the trade parsers take it. -/
def magnitude (quantity : Double) : Double :=
  if Double.isNegative quantity then Double.neg quantity else quantity

end Gateio

namespace GateioSpot

def parseTradeEvent (doc : Value) : Option TickData := do
  Gateio.skipTimeEnvelope doc
  let ev ← doc.stringAt "event"
  if ev = "subscribe" then none
  else
    let result ← doc.getField "result"
    let tradeId ← result.uint64At "id"
    Gateio.ignored (result.uint64At "create_time")
    let createTimeMs ← (← result.stringAt "create_time_ms") |> num.svToDouble
    let price ← (← result.stringAt "price") |> num.svToDouble
    let side ← result.stringAt "side"
    let qty ← (← result.stringAt "amount") |> num.svToDouble
    return { (default : TickData) with
      tradeId, price
      exchangeTimestamp := num.timesThousand createTimeMs
      quantity := Gateio.magnitude qty
      isBuyerMaker := side = "sell" }

def parseDepthEvent (doc : Value) : Option DepthUpdateEvent := do
  Gateio.skipTimeEnvelope doc
  let ev ← doc.stringAt "event"
  if ev ≠ "update" ∧ ev ≠ "all" then none
  else
    let result ← doc.getField "result"
    let t ← result.uint64At "t"
    let lastUpdateId ← result.uint64At "lastUpdateId"
    let bids ← parsePositionalLevelArray num (← result.arrayAt "bids") kMaxOrderbookLevels
    let asks ← parsePositionalLevelArray num (← result.arrayAt "asks") kMaxOrderbookLevels
    return depthEvent (msToUs t) lastUpdateId bids asks

end GateioSpot

namespace GateioPerpetual

/-- The part of `ParseTradeEvent` that reads a trade. -/
def parseTrade (item : Value) : Option TickData := do
  let tradeId ← item.uint64At "id"
  Gateio.ignored (item.uint64At "create_time")
  let createTimeMs ← item.uint64At "create_time_ms"
  let price ← (← item.stringAt "price") |> num.svToDouble
  let size ← Gateio.parseQuantity num (← item.getField "size")
  return { (default : TickData) with
    tradeId, price
    exchangeTimestamp := msToUs createTimeMs
    quantity := Gateio.magnitude size
    isBuyerMaker := Double.isNegative size }

/-- Only the first trade of the array is read. -/
def parseTradeEvent (doc : Value) : Option TickData := do
  Gateio.skipTimeEnvelope doc
  let ev ← doc.stringAt "event"
  if ev = "subscribe" then none
  else
    let arr ← doc.arrayAt "result"
    let item ← arr.head?
    parseTrade num item

/-- A pass through one of the two loops over levels. -/
def depthLevel (lv : Value) : Option (Option PriceLevel) := do
  let sv ← lv.stringAt "p"
  match num.svToDouble sv with
  | none => some none
  | some p =>
    let quantity ← Gateio.parseQuantity num (← lv.getField "s")
    return some ⟨p, quantity⟩

def parseDepthEvent (doc : Value) : Option DepthUpdateEvent := do
  Gateio.skipTimeEnvelope doc
  let ev ← doc.stringAt "event"
  if ev ≠ "update" ∧ ev ≠ "all" then none
  else
    let result ← doc.getField "result"
    let t ← result.uint64At "t"
    let lastUpdateId ← result.uint64At "id"
    let bids ← CappedScan.scan (depthLevel num) kMaxOrderbookLevels (← result.arrayAt "bids") []
    let asks ← CappedScan.scan (depthLevel num) kMaxOrderbookLevels (← result.arrayAt "asks") []
    return depthEvent (msToUs t) lastUpdateId bids asks

end GateioPerpetual

/-! ## Messages -/

namespace ExchangeAdapter

def peekEventType : ExchangeAdapter → Value → EventType
  | .binanceSpot | .binancePerpetual => Binance.peekEventType
  | .gateioSpot => Gateio.peekEventType "spot"
  | .gateioPerpetual => Gateio.peekEventType "futures"

def parseTick (doc : Value) : ExchangeAdapter → Option TickData
  | .binanceSpot => Binance.parseTradeEvent num doc
  | .binancePerpetual => BinancePerpetual.parseTrade num doc
  | .gateioSpot => GateioSpot.parseTradeEvent num doc
  | .gateioPerpetual => GateioPerpetual.parseTradeEvent num doc

def parseDepth (doc : Value) (clock : UInt64) : ExchangeAdapter → Option DepthUpdateEvent
  | .binanceSpot => BinanceSpot.parsePartialDepth num doc clock
  | .binancePerpetual => BinancePerpetual.parseDepthEvent num doc
  | .gateioSpot => GateioSpot.parseDepthEvent num doc
  | .gateioPerpetual => GateioPerpetual.parseDepthEvent num doc

def parseBookTicker (doc : Value) (clock : UInt64) : ExchangeAdapter → Option BookTickerEvent
  | .binanceSpot => Binance.parseSpotBookTickerEvent num doc clock
  | .binancePerpetual => Binance.parseBookTickerEvent num doc
  | .gateioSpot | .gateioPerpetual => Gateio.parseBookTickerEvent num doc

end ExchangeAdapter

/-- Messages that are read as trees. -/
def Json.ofTrees (tree : List UInt8 → Option Value) : Json where
  iterate data := (tree data).isSome
  peekEventType adapter data := ((tree data).map adapter.peekEventType).getD .unknown
  read adapter data clock
    | .tick => (tree data).bind (adapter.parseTick num ·)
    | .depth => (tree data).bind (adapter.parseDepth num · clock)
    | .bookTicker => (tree data).bind (adapter.parseBookTicker num · clock)

end Sqc
