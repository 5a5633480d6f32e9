import SmartQuantCollector.Exchange.Crypto.Parsers

/-! # Batches of trades of Gate.io perpetual

A `futures.trades` message carries an array of trades, and the result of a parser one event. Of a
batch the parser reads the first trade, so that all trades reach the handler just in case there is
at most one (`trades_dispatched_iff`). -/

namespace Sqc
open JsonTree

/-- The events that `ParseAndDispatch` hands to the handlers. -/
def ShardParserWorker.dispatched (json : Json) (msg : RawMessage) (clock : UInt64) :
    List (Σ k : EventKind, k.Event) :=
  (parseMessage json msg clock).toList

namespace GateioPerpetual

structure Trade where
  id : UInt64
  createTimeMs : UInt64
  price : Double
  /-- Negative when the taker sells. -/
  size : Double

/-- The tick of a trade, before `ParseAndDispatch` completes it. -/
def Trade.tick (t : Trade) : TickData :=
  { (default : TickData) with
    tradeId := t.id
    exchangeTimestamp := msToUs t.createTimeMs
    price := t.price
    quantity := Gateio.magnitude t.size
    isBuyerMaker := Double.isNegative t.size }

/-- The tick of a trade in a message. -/
def Trade.event (msg : RawMessage) (t : Trade) : Σ k : EventKind, k.Event :=
  ⟨.tick, (EventKind.Event.setChannelId (k := .tick) msg.channelId t.tick).stamp
    (msg.symbol.toList.takeWhile (· ≠ 0)) msg.recvTimestamp⟩

/-- A well-formed trade object. -/
structure IsTrade (num : Doubles) (item : Value) (t : Trade) : Prop where
  id : item.uint64At "id" = some t.id
  createTimeMs : item.uint64At "create_time_ms" = some t.createTimeMs
  price : (item.stringAt "price").bind num.entire = some t.price
  size : (item.getField "size").bind (Gateio.entireQuantity num) = some t.size

/-- An update with the given trades. -/
structure IsTradesUpdate (doc : Value) (items : List Value) : Prop where
  channel : doc.stringAt "channel" = some "futures.trades"
  event : doc.stringAt "event" = some "update"
  result : doc.arrayAt "result" = some items

variable {num : Doubles} {doc item : Value} {items : List Value}

theorem IsTrade.parseTrade {t : Trade} (h : IsTrade num item t) :
    GateioPerpetual.parseTrade num item = some t.tick := by
  obtain ⟨price, hprice, hentire⟩ := Option.bind_eq_some_iff.mp h.price
  obtain ⟨size, hsize, hquantity⟩ := Option.bind_eq_some_iff.mp h.size
  simp only [GateioPerpetual.parseTrade, Option.bind_eq_bind, Option.bind_some, h.id,
    Gateio.ignored, h.createTimeMs, hprice, Doubles.svToDouble_of_entire hentire, hsize,
    Gateio.parseQuantity_of_entire hquantity]
  rfl

theorem IsTradesUpdate.parseTradeEvent (h : IsTradesUpdate doc items) :
    GateioPerpetual.parseTradeEvent num doc =
      items.head?.bind (GateioPerpetual.parseTrade num) := by
  simp only [GateioPerpetual.parseTradeEvent, Gateio.skipTimeEnvelope_eq, h.event, h.result]
  rfl

theorem IsTradesUpdate.peekEventType (h : IsTradesUpdate doc items) :
    ExchangeAdapter.gateioPerpetual.peekEventType doc = .tick := by
  simp only [ExchangeAdapter.peekEventType, Gateio.peekEventType, h.channel]
  decide +kernel

/-- What `ParseAndDispatch` makes of a batch. -/
theorem dispatched_eq {tree : List UInt8 → Option Value} {msg : RawMessage} {clock : UInt64}
    {trades : List Trade} (hadapter : msg.parseFn = some .gateioPerpetual)
    (hdoc : tree (msg.buffer.take msg.size) = some doc)
    (htype : msg.eventType = ExchangeAdapter.gateioPerpetual.peekEventType doc)
    (hupdate : IsTradesUpdate doc items) (htrades : List.Forall₂ (IsTrade num) items trades) :
    ShardParserWorker.dispatched (.ofTrees num tree) msg clock =
      (trades.take 1).map (Trade.event msg) := by
  have hread : (Json.ofTrees num tree).read .gateioPerpetual (msg.buffer.take msg.size) clock
      .tick = (trades.head?.map Trade.tick : Option TickData) := by
    show (tree (msg.buffer.take msg.size)).bind _ = _
    rw [hdoc]
    refine hupdate.parseTradeEvent.trans ?_
    cases htrades with
    | nil => rfl
    | cons htrade _ => exact htrade.parseTrade
  rw [hupdate.peekEventType] at htype
  have hiterate : (Json.ofTrees num tree).iterate (msg.buffer.take msg.size) = true := by
    show (tree (msg.buffer.take msg.size)).isSome = true
    rw [hdoc]
    rfl
  simp only [ShardParserWorker.dispatched, ShardParserWorker.parseMessage, hiterate, if_true,
    hadapter, ExchangeAdapter.parse, htype, EventType.kind, Option.bind_eq_bind, Option.bind_some,
    hread]
  cases trades with
  | nil => rfl
  | cons t trades => rfl

/-- All trades of a batch reach the handler, in order and with their data, just in case the batch
has at most one. -/
theorem trades_dispatched_iff (num : Doubles) (tree : List UInt8 → Option Value)
    (msg : RawMessage) (clock : UInt64) (doc : Value) (items : List Value) (trades : List Trade)
    (hadapter : msg.parseFn = some .gateioPerpetual)
    (hdoc : tree (msg.buffer.take msg.size) = some doc)
    (htype : msg.eventType = ExchangeAdapter.gateioPerpetual.peekEventType doc)
    (hupdate : IsTradesUpdate doc items) (htrades : List.Forall₂ (IsTrade num) items trades) :
    ShardParserWorker.dispatched (.ofTrees num tree) msg clock = trades.map (Trade.event msg) ↔
      items.length ≤ 1 := by
  rw [dispatched_eq hadapter hdoc htype hupdate htrades, htrades.length_eq]
  constructor
  · intro h
    have hlength := congrArg List.length h
    rw [List.length_map, List.length_map, List.length_take] at hlength
    omega
  · intro h
    rw [List.take_of_length_le h]

/-! ### A trade and two trades -/

/-- The trade `27753479` of 108 contracts for `96.4`. -/
def sellItem : Value :=
  .object [("id", .integer 27753479), ("create_time", .integer 1545136464),
    ("create_time_ms", .integer 1545136464123), ("price", .string "96.4"),
    ("size", .integer (-108)), ("contract", .string "BTC_USDT"), ("is_internal", .bool false)]

def sell : Trade := ⟨27753479, 1545136464123, 0x405819999999999A, 0xC05B000000000000⟩

def buyItem : Value :=
  .object [("id", .integer 27753480), ("create_time", .integer 1545136464),
    ("create_time_ms", .integer 1545136464125), ("price", .string "96.5"),
    ("size", .string "20"), ("contract", .string "BTC_USDT"), ("is_internal", .bool false)]

def buy : Trade := ⟨27753480, 1545136464125, 0x4058200000000000, 0x4034000000000000⟩

theorem isTrade_sell : IsTrade .decimal sellItem sell := by
  constructor <;> decide +kernel

theorem isTrade_buy : IsTrade .decimal buyItem buy := by
  constructor <;> decide +kernel

def tradesUpdate (items : List Value) : Value :=
  .object [("time", .integer 1779916108), ("time_ms", .integer 1779916108315),
    ("channel", .string "futures.trades"), ("event", .string "update"), ("result", .array items)]

theorem isTradesUpdate (items : List Value) : IsTradesUpdate (tradesUpdate items) items where
  channel := rfl
  event := rfl
  result := rfl

def tradesMessage : RawMessage :=
  { (default : RawMessage) with channelId := 2, parseFn := some .gateioPerpetual }

theorem single_trade_dispatched :
    ShardParserWorker.dispatched (.ofTrees .decimal fun _ => some (tradesUpdate [sellItem]))
      tradesMessage 0 = [Trade.event tradesMessage sell] := by
  have htype : tradesMessage.eventType =
      ExchangeAdapter.gateioPerpetual.peekEventType (tradesUpdate [sellItem]) :=
    (isTradesUpdate [sellItem]).peekEventType.symm
  refine (trades_dispatched_iff .decimal _ tradesMessage 0 (tradesUpdate [sellItem]) [sellItem]
    [sell] rfl rfl htype (isTradesUpdate _) ?_).mpr (Nat.le_refl 1)
  exact .cons isTrade_sell .nil

/-- Of two trades in one message the second one is lost. -/
theorem second_trade_lost :
    List.Forall₂ (IsTrade .decimal) [sellItem, buyItem] [sell, buy] ∧
    ShardParserWorker.dispatched
      (.ofTrees .decimal fun _ => some (tradesUpdate [sellItem, buyItem])) tradesMessage 0 =
        [Trade.event tradesMessage sell] ∧
    [Trade.event tradesMessage sell] ≠ [sell, buy].map (Trade.event tradesMessage) := by
  have htrades : List.Forall₂ (IsTrade .decimal) [sellItem, buyItem] [sell, buy] :=
    .cons isTrade_sell (.cons isTrade_buy .nil)
  have hupdate := isTradesUpdate [sellItem, buyItem]
  refine ⟨htrades, ?_, fun h => ?_⟩
  · exact dispatched_eq rfl rfl hupdate.peekEventType.symm hupdate htrades
  · cases congrArg List.length h

end GateioPerpetual

end Sqc
