import Mathlib.Data.Fintype.Basic

/-! # Market events (`src/common/tick_data.h`, `src/orderbook/orderbook_event.h`)

The three kinds of events that travel from the exchanges to the publisher and to the storage. A
`double` is carried as its 64-bit pattern: no modelled function computes with prices. -/

namespace Sqc

inductive EventKind where
  | tick
  | depth
  | bookTicker
deriving DecidableEq

instance : Fintype EventKind where
  elems := {.tick, .depth, .bookTicker}
  complete k := by cases k <;> decide

/-- A `double`, as its bit pattern. -/
abbrev Double := UInt64

/-- `char symbol[12]`. -/
abbrev SymbolChars := Vector UInt8 12

structure TickData where
  exchangeTimestamp : UInt64
  localDiff : UInt64
  tradeId : UInt64
  price : Double
  quantity : Double
  channelId : UInt32
  symbol : SymbolChars
  isBuyerMaker : Bool
  padding : Vector UInt8 3
deriving DecidableEq, Inhabited

def kMaxOrderbookLevels : Nat := 100

structure PriceLevel where
  price : Double
  quantity : Double
deriving DecidableEq, Inhabited

structure DepthUpdateEvent where
  lastUpdateId : UInt64
  channelId : UInt32
  exchangeTimestamp : UInt64
  localDiff : UInt64
  symbol : SymbolChars
  bids : Vector PriceLevel kMaxOrderbookLevels
  asks : Vector PriceLevel kMaxOrderbookLevels
  bidCount : UInt32
  askCount : UInt32
deriving DecidableEq, Inhabited

structure BookTickerEvent where
  channelId : UInt32
  exchangeTimestamp : UInt64
  localDiff : UInt64
  symbol : SymbolChars
  bestBidPrice : Double
  bestBidQty : Double
  bestAskPrice : Double
  bestAskQty : Double
deriving DecidableEq, Inhabited

/-- The event type of a kind. -/
def EventKind.Event : EventKind → Type
  | .tick => TickData
  | .depth => DepthUpdateEvent
  | .bookTicker => BookTickerEvent

/-- `T{}`. -/
instance : ∀ k : EventKind, Inhabited k.Event
  | .tick => inferInstanceAs (Inhabited TickData)
  | .depth => inferInstanceAs (Inhabited DepthUpdateEvent)
  | .bookTicker => inferInstanceAs (Inhabited BookTickerEvent)

end Sqc
