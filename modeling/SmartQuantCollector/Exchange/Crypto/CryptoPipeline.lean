import SmartQuantCollector.Exchange.Pipelines
import SmartQuantCollector.Exchange.ShardQueueDelivery
import SmartQuantCollector.Pubsub.DispatchCycle

/-! # The crypto pipeline (`src/exchange/crypto/symbol_channel.cpp`,
`src/exchange/crypto/shard_parser_worker.cpp`)

A message on its way from `OnMessage` on the network thread, through the `ShardQueue` that its
channel selects, to `ParseAndDispatch` on the worker of that queue, whose `DataDispatcher` publishes
the result to the queues of `PubWorker`. The network thread runs one handler at a time; the model
ends where shutdown begins.

simdjson is a parameter (`Json`), as are `std::hash`, its padding and the capacity of the queues.
`received` lists the messages that the handlers have built, in the order of the calls. -/

namespace Sqc
open Concurrency

/-! ## Messages -/

/-- What simdjson reads from the bytes of a message. -/
structure Json where
  /-- `iterate` succeeds. -/
  iterate : List UInt8 → Bool
  peekEventType : ExchangeAdapter → List UInt8 → EventType
  /-- The fields that the adapter fills in for an event of the kind, without the channel id; `none`
  when its function returns false. Some adapters take a timestamp from the wall clock. -/
  read : ExchangeAdapter → List UInt8 → UInt64 → (k : EventKind) → Option k.Event

namespace SymbolChannel

/-- `memcpy` of the symbol into the zeroed `char symbol[32]`. -/
def symbolChars (symbol : String) : Vector UInt8 32 :=
  Vector.ofFn fun i => if i < min symbol.utf8ByteSize 31 then symbol.toUTF8.toList.getD i 0 else 0

/-- The message that `OnMessage` builds in the uninitialised local `scratch`. When `iterate` fails
it keeps the default event type. -/
def message (json : Json) (padding : Nat) (ch : SymbolChannel) (scratch : RawMessage)
    (data : List UInt8) (recvTimestamp : UInt64) : RawMessage :=
  RawMessage.ofPayload padding scratch data ch.channelId recvTimestamp (symbolChars ch.symbol)
    ch.adapter (if json.iterate data then json.peekEventType ch.adapter data else .tick)

/-- The index of the queue for the channel, a `uint32_t`. -/
def shard (hash : String → UInt64) (n : Nat) (ch : SymbolChannel) : Nat :=
  (ch.channelId.toUInt64 ^^^ hash ch.adapter.name).toNat % n % 2 ^ 32

theorem shard_lt (hash : String → UInt64) {n : Nat} (ch : SymbolChannel) (hn : 0 < n) :
    ch.shard hash n < n :=
  Nat.lt_of_le_of_lt (Nat.mod_le _ _) (Nat.mod_lt _ hn)

end SymbolChannel

/-! ## Events -/

namespace EventType

def kind : EventType → Option EventKind
  | .unknown => none
  | .tick => some .tick
  | .depth => some .depth
  | .bookTicker => some .bookTicker

end EventType

/-- `CopySymbol` into a `char[12]`. -/
def ShardParserWorker.copySymbol (dst : SymbolChars) (src : List UInt8) : SymbolChars :=
  let len := if src.length ≥ 12 then 11 else src.length
  Vector.ofFn fun i => if i < len then src.getD i 0 else if i = len then 0 else dst.get i

namespace EventKind.Event

def setChannelId (channelId : UInt32) : {k : EventKind} → k.Event → k.Event
  | .tick, t => { (t : TickData) with channelId }
  | .depth, e => { (e : DepthUpdateEvent) with channelId }
  | .bookTicker, e => { (e : BookTickerEvent) with channelId }

/-- What `ParseAndDispatch` writes into a result. -/
def stamp (symbol : List UInt8) (recvTimestamp : UInt64) : {k : EventKind} → k.Event → k.Event
  | .tick, t => { (t : TickData) with
      symbol := ShardParserWorker.copySymbol (TickData.symbol t) symbol
      localDiff := recvTimestamp }
  | .depth, e => { (e : DepthUpdateEvent) with
      symbol := ShardParserWorker.copySymbol (DepthUpdateEvent.symbol e) symbol
      localDiff := recvTimestamp }
  | .bookTicker, e => { (e : BookTickerEvent) with
      symbol := ShardParserWorker.copySymbol (BookTickerEvent.symbol e) symbol
      localDiff := recvTimestamp }

@[simp] theorem channelId_stamp (symbol : List UInt8) (recvTimestamp : UInt64) {k : EventKind}
    (e : k.Event) : (e.stamp symbol recvTimestamp).channelId = e.channelId := by
  cases k <;> rfl

@[simp] theorem channelId_setChannelId (channelId : UInt32) {k : EventKind} (e : k.Event) :
    (e.setChannelId channelId).channelId = channelId := by
  cases k <;> rfl

end EventKind.Event

/-- `Parse` of the adapters: the event type says which function is called. -/
def ExchangeAdapter.parse (json : Json) (adapter : ExchangeAdapter) (doc : List UInt8)
    (channelId : UInt32) (eventType : EventType) (clock : UInt64) :
    Option (Σ k : EventKind, k.Event) := do
  let k ← eventType.kind
  let event ← json.read adapter doc clock k
  return ⟨k, event.setChannelId channelId⟩

namespace ShardParserWorker

/-- The event that `ParseAndDispatch` passes to a handler. -/
def parseMessage (json : Json) (msg : RawMessage) (clock : UInt64) :
    Option (Σ k : EventKind, k.Event) :=
  let doc := msg.buffer.take msg.size
  if json.iterate doc then do
    let adapter ← msg.parseFn
    let ⟨k, event⟩ ← adapter.parse json doc msg.channelId msg.eventType clock
    return ⟨k, event.stamp (msg.symbol.toList.takeWhile (· ≠ 0)) msg.recvTimestamp⟩
  else none

theorem channelId_of_parseMessage {json : Json} {msg : RawMessage} {clock : UInt64}
    {k : EventKind} {event : k.Event} (h : parseMessage json msg clock = some ⟨k, event⟩) :
    event.channelId = msg.channelId := by
  simp only [parseMessage] at h
  split at h
  · obtain ⟨adapter, -, h⟩ := Option.bind_eq_some_iff.mp h
    obtain ⟨⟨k', parsed⟩, hparse, h⟩ := Option.bind_eq_some_iff.mp h
    obtain ⟨k'', -, hparse⟩ := Option.bind_eq_some_iff.mp hparse
    obtain ⟨read, -, hparse⟩ := Option.bind_eq_some_iff.mp hparse
    cases hparse
    cases h
    rw [EventKind.Event.channelId_stamp, EventKind.Event.channelId_setChannelId]
  · cases h

end ShardParserWorker

/-! ## The threads -/

namespace CryptoPipeline
open ShardParserWorker

/-- What the threads do not change. -/
structure Env where
  json : Json
  /-- `std::hash<std::string_view>` -/
  hash : String → UInt64
  /-- `kSimdjsonPadding` -/
  padding : Nat
  capacity : Capacity
  registry : ChannelRegistry
  channels : List SymbolChannel
  /-- The forwarder thread of the Rithmic pipeline has been started. -/
  forwarder : Bool

/-- Where a parser worker stands in `Run`. -/
inductive Worker where
  /-- In `PopBlocking`. -/
  | popping
  | handling (msg : RawMessage)
  /-- In `Publish*`, called by a handler. -/
  | publishing
  | stopped

/-- The message that is popped and not yet parsed. -/
def Worker.hand : Worker → List RawMessage
  | .handling msg => [msg]
  | _ => []

structure State (n : Nat) where
  /-- The queue of the network thread's `Push` in progress. -/
  network : Option (Fin n)
  shardQueues : Fin n → ShardQueue.State Unit
  workers : Fin n → Worker
  publication : Publication.State n
  received : List RawMessage

inductive Action (n : Nat) where
  /-- The network thread calls `OnMessage` of a channel. -/
  | onMessage (ch : SymbolChannel) (data : List UInt8) (recvTimestamp : UInt64)
      (scratch : RawMessage)
  /-- The next operation of the `Push` in progress. -/
  | push
  /-- The next operation of worker `i`. -/
  | work (i : Fin n) (clock nowNs : UInt64)
  /-- An operation of the pub thread or of the forwarder. -/
  | publication (a : Publication.Action n)

variable {n : Nat}

def State.setQueue (s : State n) (i : Fin n) (q : ShardQueue.State Unit) : State n :=
  { s with shardQueues := Function.update s.shardQueues i q }

def State.setWorker (s : State n) (i : Fin n) (w : Worker) : State n :=
  { s with workers := Function.update s.workers i w }

def onMessage (env : Env) (s : State n) (ch : SymbolChannel) (data : List UInt8)
    (recvTimestamp : UInt64) (scratch : RawMessage) : Option (State n) :=
  match s.network with
  | some _ => none
  | none =>
    if ch ∈ env.channels then
      if hn : data.length ≠ 0 ∧ 0 < n then
        let msg := ch.message env.json env.padding scratch data recvTimestamp
        let s := { s with received := s.received ++ [msg] }
        if msg.eventType = .unknown then some s
        else
          let i : Fin n := ⟨ch.shard env.hash n, ch.shard_lt env.hash hn.2⟩
          (ShardQueue.step env.capacity (s.shardQueues i) (.push () msg)).map fun q =>
            { s.setQueue i q with network := some i }
      else some s
    else none

/-- The next operation of `Push`: a new attempt after one that failed. -/
def continuePush (c : Capacity) (q : ShardQueue.State Unit) : Option (ShardQueue.State Unit) :=
  match q.ring.producers () with
  | .idle => ShardQueue.step c q (.retry ())
  | _ => ShardQueue.step c q (.produce ())

def push (env : Env) (s : State n) : Option (State n) :=
  match s.network with
  | none => none
  | some i =>
    (continuePush env.capacity (s.shardQueues i)).map fun q =>
      { s.setQueue i q with network := if (q.callers ()).pushing.isNone then none else some i }

/-- The loop of `Run`. -/
def work (env : Env) (s : State n) (i : Fin n) (clock nowNs : UInt64) : Option (State n) :=
  match s.workers i with
  | .popping =>
    let q := s.shardQueues i
    some ((s.setQueue i { q with
      ring := RingQueue.consume (ShardQueue.ring env.capacity) q.ring }).setWorker i <|
        match RingQueue.popResult q.ring with
        | none => .popping
        | some msg => if msg.size = 0 then .stopped else .handling msg)
  | .handling msg =>
    match parseMessage env.json msg clock with
    | none => some (s.setWorker i .popping)
    | some ⟨k, event⟩ =>
      (Publication.step env.registry s.publication (.onEvent (.parser i) k event nowNs)).map
        fun p => { s.setWorker i .publishing with publication := p }
  | .publishing =>
    match s.publication.worker.publishing (.parser i) with
    | .outside => some (s.setWorker i .popping)
    | _ =>
      (Publication.step env.registry s.publication (.advance (.parser i))).map
        fun p => { s with publication := p }
  | .stopped => none

/-- The operations of `publication`: those of the parser workers are in `work`. -/
def Env.allows (env : Env) : Publication.Action n → Bool
  | .onEvent .forwarder .. | .advance .forwarder => env.forwarder
  | .onEvent (.parser _) .. | .advance (.parser _) => false
  | .dispatchCycle _ | .dispatch _ => true

def step (env : Env) (s : State n) : Action n → Option (State n)
  | .onMessage ch data recvTimestamp scratch => onMessage env s ch data recvTimestamp scratch
  | .push => push env s
  | .work i clock nowNs => work env s i clock nowNs
  | .publication a =>
    if env.allows a then
      (Publication.step env.registry s.publication a).map fun p => { s with publication := p }
    else none

def init (n : Nat) : State n where
  network := none
  shardQueues _ := ShardQueue.init Unit
  workers _ := .popping
  publication := Publication.init n
  received := []

def machine (env : Env) (n : Nat) : Machine (State n) (Action n) where
  init := init n
  step := step env

/-- A received message fits the inline buffer with its padding. -/
def Action.Inline (padding : Nat) : Action n → Prop
  | .onMessage _ data .. => data.length + padding ≤ RawMessage.kInlineSize
  | _ => True

/-- The pipeline after start-up. `Setup` starts the forwarder when there is a subscription. -/
def Env.ofConfig (json : Json) (hash : String → UInt64) (padding : Nat) (capacity : Capacity)
    (cfg : RootConfig) : Env where
  json := json
  hash := hash
  padding := padding
  capacity := capacity
  registry := (Pipelines.launched cfg).2.world.channels
  channels := (Pipelines.launched cfg).2.symbolChannels
  forwarder := !(Pipelines.launched cfg).2.channelMap.subList.isEmpty

end CryptoPipeline

end Sqc
