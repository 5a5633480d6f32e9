/-! # Exchange adapters (`src/exchange/exchange_adapter.h`, `GetAdapter`) -/

namespace Sqc

inductive EventType where
  | unknown
  | tick
  | depth
  | bookTicker
deriving DecidableEq

inductive ChannelType where
  | spot
  | perpetual
  | futures
deriving DecidableEq

/-- The error is the text of the `std::invalid_argument`. -/
def parseChannelType (s : String) : Except String ChannelType :=
  if s = "spot" then .ok .spot
  else if s = "perpetual" then .ok .perpetual
  else if s = "futures" then .ok .futures
  else .error ("unknown channel_type: " ++ s)

def channelTypeName : ChannelType → String
  | .spot => "spot"
  | .perpetual => "perpetual"
  | .futures => "futures"

@[simp] theorem parseChannelType_channelTypeName (t : ChannelType) :
    parseChannelType (channelTypeName t) = .ok t := by
  cases t <;> rfl

/-- The adapters of the program; each stands for its table of functions, `parse` among them. -/
inductive ExchangeAdapter where
  | binanceSpot
  | binancePerpetual
  | gateioSpot
  | gateioPerpetual
deriving DecidableEq

namespace ExchangeAdapter

def name : ExchangeAdapter → String
  | .binanceSpot | .binancePerpetual => "binance"
  | .gateioSpot | .gateioPerpetual => "gateio"

def channelType : ExchangeAdapter → ChannelType
  | .binanceSpot | .gateioSpot => .spot
  | .binancePerpetual | .gateioPerpetual => .perpetual

end ExchangeAdapter

/-- `GetAdapter`: every type other than spot gets the perpetual adapter. -/
def getAdapter (exchangeName : String) (channelType : ChannelType) : Option ExchangeAdapter :=
  if exchangeName = "binance" then
    some (if channelType = .spot then .binanceSpot else .binancePerpetual)
  else if exchangeName = "gateio" then
    some (if channelType = .spot then .gateioSpot else .gateioPerpetual)
  else none

end Sqc
