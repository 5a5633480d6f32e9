import SmartQuantCollector.Common.MarketEvent
import SmartQuantCollector.Storage.ChannelRegistry
import SmartQuantCollector.Storage.TimestampUtil

/-! # The rows of `DolphinDBClient::TableInsert*`

What is handed to the three writers for an event that passed the date check. The channel columns
come from the registry; an event whose channel is not there is stored with the symbol it carries and
with empty exchange and market type. -/

namespace Sqc

/-- A `char[12]` as a `std::string`. -/
def symbolString (s : SymbolChars) : String :=
  String.ofList ((s.toList.takeWhile (· ≠ 0)).map fun c => Char.ofNat c.toNat)

structure ChannelColumns where
  symbol : String
  exchange : String
  marketType : String

/-- `ResolveChannel` and the three references taken from its result. -/
def channelColumns (reg : StorageChannelRegistry) (channelId : UInt32) (symbol : SymbolChars) :
    ChannelColumns :=
  match reg.find channelId with
  | some entry => ⟨entry.symbol, entry.exchange, entry.marketType⟩
  | none => ⟨symbolString symbol, "", ""⟩

structure TradeRow extends ChannelColumns where
  exchangeTimestamp : Int64
  localDiff : Int64
  tradeId : Int64
  price : Double
  quantity : Double
  direction : Int
  isBuyerMaker : Bool
  tradeDate : Int

def tradeRow (reg : StorageChannelRegistry) (t : TickData) : TradeRow where
  toChannelColumns := channelColumns reg t.channelId t.symbol
  exchangeTimestamp := t.exchangeTimestamp.toInt64
  localDiff := t.localDiff.toInt64
  tradeId := t.tradeId.toInt64
  price := t.price
  quantity := t.quantity
  direction := if t.isBuyerMaker then -1 else 1
  isBuyerMaker := t.isBuyerMaker
  tradeDate := usecToDateInt t.exchangeTimestamp

/-- The number of levels stored for a configured depth. -/
def storedLevels (depthLevel : UInt32) : Nat :=
  if depthLevel > 0 then min depthLevel.toNat kMaxOrderbookLevels else kMaxOrderbookLevels

/-- The number of levels of an orderbook row. -/
def orderbookLevels (reg : StorageChannelRegistry) (channelId : UInt32) : Nat :=
  match reg.find channelId with
  | some entry => storedLevels entry.depthLevel
  | none => kMaxOrderbookLevels

structure OrderbookRow extends ChannelColumns where
  exchangeTimestamp : Int64
  localTs : Int64
  tradeDate : Int
  bidPrices : List Double
  bidSizes : List Double
  askPrices : List Double
  askSizes : List Double

/-- One of the four arrays: the first `count` levels, padded with `0.0`. -/
def levelArray (levels : Nat) (side : Vector PriceLevel kMaxOrderbookLevels) (count : UInt32)
    (column : PriceLevel → Double) : List Double :=
  (List.range levels).map fun i =>
    if i < count.toNat then column (side.toList.getD i default) else 0

def orderbookRow (reg : StorageChannelRegistry) (event : DepthUpdateEvent) (localTs : UInt64) :
    OrderbookRow where
  toChannelColumns := channelColumns reg event.channelId event.symbol
  exchangeTimestamp := event.exchangeTimestamp.toInt64
  localTs := localTs.toInt64
  tradeDate := usecToDateInt event.exchangeTimestamp
  bidPrices := levelArray (orderbookLevels reg event.channelId) event.bids event.bidCount (·.price)
  bidSizes :=
    levelArray (orderbookLevels reg event.channelId) event.bids event.bidCount (·.quantity)
  askPrices := levelArray (orderbookLevels reg event.channelId) event.asks event.askCount (·.price)
  askSizes :=
    levelArray (orderbookLevels reg event.channelId) event.asks event.askCount (·.quantity)

structure BookTickerRow extends ChannelColumns where
  exchangeTimestamp : Int64
  localDiff : Int64
  bestBidPrice : Double
  bestBidQty : Double
  bestAskPrice : Double
  bestAskQty : Double
  tradeDate : Int

def bookTickerRow (reg : StorageChannelRegistry) (event : BookTickerEvent) : BookTickerRow where
  toChannelColumns := channelColumns reg event.channelId event.symbol
  exchangeTimestamp := event.exchangeTimestamp.toInt64
  localDiff := event.localDiff.toInt64
  bestBidPrice := event.bestBidPrice
  bestBidQty := event.bestBidQty
  bestAskPrice := event.bestAskPrice
  bestAskQty := event.bestAskQty
  tradeDate := usecToDateInt event.exchangeTimestamp

theorem channelColumns_of_find {reg : StorageChannelRegistry} {channelId : UInt32}
    {entry : ChannelMeta} (h : reg.find channelId = some entry) (symbol : SymbolChars) :
    channelColumns reg channelId symbol = ⟨entry.symbol, entry.exchange, entry.marketType⟩ := by
  rw [channelColumns, h]

end Sqc
