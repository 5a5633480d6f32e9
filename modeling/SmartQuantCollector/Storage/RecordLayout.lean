import SmartQuantCollector.Common.MarketEvent
import SmartQuantCollector.Lib.Framing
import SmartQuantCollector.Lib.LittleEndian

/-! # Binary records (`src/storage/record_layout.h`, `src/common/storage_envelope.h`)

The bytes of the records in the mmap files, on a little-endian machine. -/

namespace Sqc

open LittleEndian

/-- `char symbol[kSymbolFieldBytes]` after `CopySymbol` into a zeroed record. -/
def copySymbol (symbol : SymbolChars) : List UInt8 := symbol.toList ++ List.replicate 20 0

/-- `OrderbookRecordHeader`, as `WriteOrderbook` fills it. -/
def orderbookHeaderBytes (event : DepthUpdateEvent) (localTs : UInt64) : List UInt8 :=
  encode 8 event.exchangeTimestamp.toNat ++ encode 8 localTs.toNat ++ copySymbol event.symbol ++
    encode 4 event.bidCount.toNat ++ encode 4 event.askCount.toNat

def priceLevelBytes (level : PriceLevel) : List UInt8 :=
  encode 8 level.price.toNat ++ encode 8 level.quantity.toNat

/-- `count * sizeof(PriceLevel)` bytes from the start of an array of levels. -/
def priceLevelsBytes (levels : Vector PriceLevel kMaxOrderbookLevels) (count : UInt32) :
    List UInt8 :=
  (levels.toList.take count.toNat).flatMap priceLevelBytes

/-- `BookTickerRecord`, as `WriteBookTicker` fills it. -/
def bookTickerBytes (event : BookTickerEvent) : List UInt8 :=
  encode 8 event.exchangeTimestamp.toNat ++ encode 8 event.localDiff.toNat ++
    copySymbol event.symbol ++ encode 8 event.bestBidPrice.toNat ++
    encode 8 event.bestBidQty.toNat ++ encode 8 event.bestAskPrice.toNat ++
    encode 8 event.bestAskQty.toNat

/-- `TickData`. The compiler pads it to a cache line; the contents of the pad are not specified. -/
def tickDataBytes (tick : TickData) (pad : Vector UInt8 4) : List UInt8 :=
  encode 8 tick.exchangeTimestamp.toNat ++ encode 8 tick.localDiff.toNat ++
    encode 8 tick.tradeId.toNat ++ encode 8 tick.price.toNat ++ encode 8 tick.quantity.toNat ++
    encode 4 tick.channelId.toNat ++ tick.symbol.toList ++ [if tick.isBuyerMaker then 1 else 0] ++
    tick.padding.toList ++ pad.toList

/-- `StorageTickEnvelope` with `recovery_status` 0. Where the alignment of `TickData` carries over
to it, it is padded at the end. -/
def tickEnvelopeBytes (tick : TickData) (storageTarget : UInt32) (pad : Vector UInt8 4)
    (tail : List UInt8) : List UInt8 :=
  tickDataBytes tick pad ++ encode 4 storageTarget.toNat ++ encode 4 0 ++ tail

@[simp] theorem length_copySymbol (symbol : SymbolChars) : (copySymbol symbol).length = 32 := by
  simp [copySymbol]

@[simp] theorem length_orderbookHeaderBytes (event : DepthUpdateEvent) (localTs : UInt64) :
    (orderbookHeaderBytes event localTs).length = 56 := by
  simp [orderbookHeaderBytes]

@[simp] theorem length_priceLevelBytes (level : PriceLevel) :
    (priceLevelBytes level).length = 16 := by
  simp [priceLevelBytes]

theorem length_flatMap_priceLevelBytes (levels : List PriceLevel) :
    (levels.flatMap priceLevelBytes).length = 16 * levels.length := by
  induction levels with
  | nil => rfl
  | cons level levels ih =>
    rw [List.flatMap_cons, List.length_append, ih, length_priceLevelBytes, List.length_cons]
    omega

theorem length_priceLevelsBytes (levels : Vector PriceLevel kMaxOrderbookLevels) {count : UInt32}
    (h : count.toNat ≤ kMaxOrderbookLevels) :
    (priceLevelsBytes levels count).length = 16 * count.toNat := by
  rw [priceLevelsBytes, length_flatMap_priceLevelBytes, List.length_take, Vector.length_toList,
    Nat.min_eq_left h]

@[simp] theorem length_bookTickerBytes (event : BookTickerEvent) :
    (bookTickerBytes event).length = 80 := by
  simp [bookTickerBytes]

@[simp] theorem length_tickDataBytes (tick : TickData) (pad : Vector UInt8 4) :
    (tickDataBytes tick pad).length = 64 := by
  simp [tickDataBytes]

/-- A stream of order book records: a header, then its `bid_count + ask_count` levels. -/
def orderbookFraming : Framing UInt8 where
  headerLength := 56
  headerLength_pos := Nat.succ_pos _
  bodyLength header :=
    16 * (decode ((header.drop 48).take 4) + decode ((header.drop 52).take 4))

theorem bodyLength_orderbookHeaderBytes (event : DepthUpdateEvent) (localTs : UInt64) :
    orderbookFraming.bodyLength (orderbookHeaderBytes event localTs) =
      16 * (event.bidCount.toNat + event.askCount.toNat) := by
  have hbid : event.bidCount.toNat < 256 ^ 4 := event.bidCount.toNat_lt
  have hask : event.askCount.toNat < 256 ^ 4 := event.askCount.toNat_lt
  have hcounts : (orderbookHeaderBytes event localTs).drop 48 =
      encode 4 event.bidCount.toNat ++ encode 4 event.askCount.toNat := by
    rw [orderbookHeaderBytes, List.append_assoc]
    exact List.drop_left' (by simp)
  have hsecond : (orderbookHeaderBytes event localTs).drop 52 = encode 4 event.askCount.toNat := by
    rw [← List.drop_drop (i := 4) (j := 48), hcounts]
    exact List.drop_left' (length_encode _ _)
  simp only [orderbookFraming, hcounts, hsecond]
  rw [List.take_left' (length_encode _ _), List.take_of_length_le (length_encode _ _).le,
    decode_encode hbid, decode_encode hask]

end Sqc
