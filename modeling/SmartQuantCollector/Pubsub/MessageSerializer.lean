import SmartQuantCollector.Lib.ByteReader
import SmartQuantCollector.Pubsub.DispatchCycle
import SmartQuantCollector.Storage.RecordLayout

/-! # Payload frames (`src/pubsub/message_serializer.h`, `src/pubsub/pub_message.h`)

A payload is a tag byte and the bytes of the event as it lies in memory: the fields at their offsets
on a little-endian machine, and between them bytes that the compiler adds and nobody sets.

`readFrame` is what a subscriber does who knows the layouts. It gets back the event whatever the
padding holds (`reads_serialize`), and a frame of any kind fits into a buffer of the pool
(`length_serialize_le`). -/

namespace Sqc
open LittleEndian ByteReader

/-- The bytes that the compiler adds to a structure, four at a time. -/
structure Pads where
  first : Vector UInt8 4
  second : Vector UInt8 4
deriving DecidableEq

/-- `PubMsgType` -/
def pubMsgType : EventKind → UInt8
  | .tick => 1
  | .depth => 2
  | .bookTicker => 3

/-! ## The structures in memory -/

def levelsBytes (levels : Vector PriceLevel kMaxOrderbookLevels) : List UInt8 :=
  levels.toList.flatMap priceLevelBytes

def depthUpdateEventBytes (e : DepthUpdateEvent) (pads : Pads) : List UInt8 :=
  encode 8 e.lastUpdateId.toNat ++ encode 4 e.channelId.toNat ++ pads.first.toList ++
    encode 8 e.exchangeTimestamp.toNat ++ encode 8 e.localDiff.toNat ++ e.symbol.toList ++
    pads.second.toList ++ levelsBytes e.bids ++ levelsBytes e.asks ++
    encode 4 e.bidCount.toNat ++ encode 4 e.askCount.toNat

def bookTickerEventBytes (e : BookTickerEvent) (pads : Pads) : List UInt8 :=
  encode 4 e.channelId.toNat ++ pads.first.toList ++ encode 8 e.exchangeTimestamp.toNat ++
    encode 8 e.localDiff.toNat ++ e.symbol.toList ++ pads.second.toList ++
    encode 8 e.bestBidPrice.toNat ++ encode 8 e.bestBidQty.toNat ++
    encode 8 e.bestAskPrice.toNat ++ encode 8 e.bestAskQty.toNat

def eventBytes : (k : EventKind) → k.Event → Pads → List UInt8
  | .tick, tick, pads => tickDataBytes tick pads.first
  | .depth, e, pads => depthUpdateEventBytes e pads
  | .bookTicker, e, pads => bookTickerEventBytes e pads

/-- `sizeof` -/
def sizeof : EventKind → Nat
  | .tick => 64
  | .depth => 3256
  | .bookTicker => 72

def wireSize (k : EventKind) : Nat := sizeof k + 1

def kMaxPayloadSize : Nat := sizeof .depth + 1

/-- `MessageSerializer::serialize` -/
def serialize (k : EventKind) (e : k.Event) (pads : Pads) : List UInt8 :=
  pubMsgType k :: eventBytes k e pads

/-! ## Reading a frame -/

def vector {α : Type} (n : Nat) (x : α) (xs : List α) : Vector α n :=
  Vector.ofFn fun i => xs.getD i x

def readSymbol : Reader SymbolChars := vector 12 0 <$> bytes 12

def readLevel : Reader PriceLevel := do
  let price ← u64
  let quantity ← u64
  return { price, quantity }

def readLevels : Reader (Vector PriceLevel kMaxOrderbookLevels) :=
  vector kMaxOrderbookLevels ⟨0, 0⟩ <$> ByteReader.list readLevel kMaxOrderbookLevels

def readTick : Reader TickData := do
  let exchangeTimestamp ← u64
  let localDiff ← u64
  let tradeId ← u64
  let price ← u64
  let quantity ← u64
  let channelId ← u32
  let symbol ← readSymbol
  let isBuyerMaker ← u8
  let padding ← vector 3 0 <$> bytes 3
  skip 4
  return ⟨exchangeTimestamp, localDiff, tradeId, price, quantity, channelId, symbol,
    isBuyerMaker ≠ 0, padding⟩

def readDepth : Reader DepthUpdateEvent := do
  let lastUpdateId ← u64
  let channelId ← u32
  skip 4
  let exchangeTimestamp ← u64
  let localDiff ← u64
  let symbol ← readSymbol
  skip 4
  let bids ← readLevels
  let asks ← readLevels
  let bidCount ← u32
  let askCount ← u32
  return ⟨lastUpdateId, channelId, exchangeTimestamp, localDiff, symbol, bids, asks, bidCount,
    askCount⟩

def readBookTicker : Reader BookTickerEvent := do
  let channelId ← u32
  skip 4
  let exchangeTimestamp ← u64
  let localDiff ← u64
  let symbol ← readSymbol
  skip 4
  let bestBidPrice ← u64
  let bestBidQty ← u64
  let bestAskPrice ← u64
  let bestAskQty ← u64
  return ⟨channelId, exchangeTimestamp, localDiff, symbol, bestBidPrice, bestBidQty, bestAskPrice,
    bestAskQty⟩

/-- The event behind a tag. -/
def readEvent (tag : UInt8) : Reader (Σ k : EventKind, k.Event) :=
  if tag = 1 then (fun e => ⟨.tick, e⟩) <$> readTick
  else if tag = 2 then (fun e => ⟨.depth, e⟩) <$> readDepth
  else if tag = 3 then (fun e => ⟨.bookTicker, e⟩) <$> readBookTicker
  else fail

/-- What a subscriber makes of a payload. -/
def readFrame : Reader (Σ k : EventKind, k.Event) := u8 >>= readEvent

/-! ## Reading back what is written -/

theorem vector_toList {α : Type} {n : Nat} (x : α) (v : Vector α n) : vector n x v.toList = v := by
  ext i hi
  simp [vector, List.getD_eq_getElem?_getD]

theorem reads_vector {n : Nat} (v : Vector UInt8 n) :
    Reads (vector n 0 <$> bytes n) v.toList v := by
  have hlen : v.toList.length = n := Vector.length_toList
  have hread := (Reads.bytes hlen).map (vector n 0)
  rwa [vector_toList] at hread

theorem reads_symbol (symbol : SymbolChars) : Reads readSymbol symbol.toList symbol :=
  reads_vector symbol

theorem reads_skip (pad : Vector UInt8 4) : Reads (skip 4) pad.toList () :=
  .skip Vector.length_toList

theorem reads_level (level : PriceLevel) : Reads readLevel (priceLevelBytes level) level :=
  (Reads.u64 level.price).bind ((Reads.u64 level.quantity).return_map _)

theorem reads_levels (levels : Vector PriceLevel kMaxOrderbookLevels) :
    Reads readLevels (levelsBytes levels) levels := by
  have hread := (Reads.list reads_level levels.toList).map (vector kMaxOrderbookLevels ⟨0, 0⟩)
  rwa [vector_toList, Vector.length_toList] at hread

theorem reads_tick (tick : TickData) (pad : Vector UInt8 4) :
    Reads readTick (tickDataBytes tick pad) tick := by
  have hflag : decide ((if tick.isBuyerMaker then 1 else 0 : UInt8) ≠ 0) = tick.isBuyerMaker := by
    cases tick.isBuyerMaker <;> rfl
  simp only [tickDataBytes, List.append_assoc]
  refine (Reads.u64 _).bind <| (Reads.u64 _).bind <| (Reads.u64 _).bind <| (Reads.u64 _).bind <|
    (Reads.u64 _).bind <| (Reads.u32 _).bind <| (reads_symbol _).bind <| (Reads.u8 _).bind <|
    (reads_vector tick.padding).bind <| ((reads_skip pad).return_map _).of_eq ?_
  rw [hflag]

theorem reads_depth (e : DepthUpdateEvent) (pads : Pads) :
    Reads readDepth (depthUpdateEventBytes e pads) e := by
  simp only [depthUpdateEventBytes, List.append_assoc]
  exact (Reads.u64 _).bind <| (Reads.u32 _).bind <| (reads_skip pads.first).bind <|
    (Reads.u64 _).bind <| (Reads.u64 _).bind <| (reads_symbol _).bind <|
    (reads_skip pads.second).bind <| (reads_levels _).bind <| (reads_levels _).bind <|
    (Reads.u32 _).bind <| (Reads.u32 _).return_map _

theorem reads_bookTicker (e : BookTickerEvent) (pads : Pads) :
    Reads readBookTicker (bookTickerEventBytes e pads) e := by
  simp only [bookTickerEventBytes, List.append_assoc]
  exact (Reads.u32 _).bind <| (reads_skip pads.first).bind <| (Reads.u64 _).bind <|
    (Reads.u64 _).bind <| (reads_symbol _).bind <| (reads_skip pads.second).bind <|
    (Reads.u64 _).bind <| (Reads.u64 _).bind <| (Reads.u64 _).bind <| (Reads.u64 _).return_map _

theorem reads_event (k : EventKind) (e : k.Event) (pads : Pads) :
    Reads (readEvent (pubMsgType k)) (eventBytes k e pads) ⟨k, e⟩ := by
  cases k with
  | tick =>
    rw [show readEvent (pubMsgType .tick) = (fun e => ⟨.tick, e⟩) <$> readTick from rfl]
    exact (reads_tick e pads.first).map _
  | depth =>
    rw [show readEvent (pubMsgType .depth) = (fun e => ⟨.depth, e⟩) <$> readDepth from rfl]
    exact (reads_depth e pads).map _
  | bookTicker =>
    rw [show readEvent (pubMsgType .bookTicker) =
      (fun e => ⟨.bookTicker, e⟩) <$> readBookTicker from rfl]
    exact (reads_bookTicker e pads).map _

/-- A subscriber gets the event back, whatever the compiler's bytes hold. -/
theorem reads_serialize (k : EventKind) (e : k.Event) (pads : Pads) :
    Reads readFrame (serialize k e pads) ⟨k, e⟩ :=
  (Reads.u8 (pubMsgType k)).bind (reads_event k e pads)

theorem length_levelsBytes (levels : Vector PriceLevel kMaxOrderbookLevels) :
    (levelsBytes levels).length = 1600 := by
  rw [levelsBytes, length_flatMap_priceLevelBytes, Vector.length_toList]
  rfl

theorem length_serialize (k : EventKind) (e : k.Event) (pads : Pads) :
    (serialize k e pads).length = wireSize k := by
  rw [serialize, List.length_cons, wireSize]
  cases k with
  | tick => exact congrArg (· + 1) (length_tickDataBytes e pads.first)
  | depth => simp [eventBytes, depthUpdateEventBytes, length_levelsBytes, sizeof]
  | bookTicker => simp [eventBytes, bookTickerEventBytes, sizeof]

theorem length_serialize_le (k : EventKind) (e : k.Event) (pads : Pads) :
    (serialize k e pads).length ≤ kMaxPayloadSize := by
  rw [length_serialize]
  cases k <;> decide

end Sqc
