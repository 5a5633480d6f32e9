import SmartQuantCollector.RithmicGateway.OrderBookInvariant

/-! # The order book callbacks (`src/rithmic_gateway/rithmic_callbacks.cpp`)

`AskQuote`, `BidQuote`, `EndQuote` and `LimitOrderBook` on the book they find, each of them under
the book's lock. -/

namespace Sqc

open CountedArray Concurrency

/-- The values of `iUpdateType` the callbacks distinguish; every other one is ignored. -/
inductive UpdateType where
  | solo
  | begin
  | middle
  | end_
  | clear
  | other
deriving DecidableEq

/-- `kUpdateTypeSolo = 1` to `kUpdateTypeClear = 5`. -/
def UpdateType.ofCode : Int → UpdateType
  | 1 => .solo
  | 2 => .begin
  | 3 => .middle
  | 4 => .end_
  | 5 => .clear
  | _ => .other

/-- `kMdImageCb`. -/
def kMdImageCb : Int := 1

/-- The fields of `AskInfo` and `BidInfo` that are read. -/
structure QuoteInfo (P : Type) where
  iUpdateType : Int
  bPriceFlag : Bool
  dPrice : P
  bSizeFlag : Bool
  llSize : Int64

/-- The fields of `LimitOrderBookInfo` that are read. -/
structure LimitOrderBookInfo (P : Type) where
  iType : Int
  adAskPriceArray : Nat → P
  allAskSizeArray : Nat → Int64
  iAskArrayLen : Int32
  adBidPriceArray : Nat → P
  allBidSizeArray : Nat → Int64
  iBidArrayLen : Int32

/-- A quote callback, with what it was called with. -/
inductive QuoteCallback (P : Type) where
  | askQuote (info : QuoteInfo P)
  | bidQuote (info : QuoteInfo P)
  | endQuote

inductive Callback (P : Type) where
  | quote (c : QuoteCallback P)
  | limitOrderBook (info : LimitOrderBookInfo P)

variable {P Q : Type} [LinearOrder P] [LinearOrder Q] [Zero Q]

/-- The level a quote carries: without a size it deletes. -/
def QuoteInfo.level (sc : SizeCast Q) (info : QuoteInfo P) : Level P Q :=
  ⟨info.dPrice, if info.bSizeFlag then sc.cast info.llSize else 0⟩

namespace RithmicOrderBook

/-- `if (bPriceFlag) book->BufferLevel(...)`. -/
def bufferQuote (sc : SizeCast Q) (isAsk : Bool) (b : RithmicOrderBook P Q) (info : QuoteInfo P) :
    Option (RithmicOrderBook P Q) :=
  if info.bPriceFlag then b.bufferLevel info.dPrice (info.level sc).quantity isAsk else some b

/-- The common body of `AskQuote` and `BidQuote`. -/
def quote (sc : SizeCast Q) (isAsk : Bool) (b : RithmicOrderBook P Q) (info : QuoteInfo P) :
    Option (RithmicOrderBook P Q) :=
  match UpdateType.ofCode info.iUpdateType with
  | .solo =>
    if info.bPriceFlag then b.applyLevel info.dPrice (info.level sc).quantity isAsk else some b
  | .begin => (if b.batchActive then b.cancelBatch else b).beginBatch.bufferQuote sc isAsk info
  | .middle => (if !b.batchActive then b.beginBatch else b).bufferQuote sc isAsk info
  | .end_ => do
    let b ← b.bufferQuote sc isAsk info
    b.commitBatch
  | .clear => some b.clear
  | .other => some b

def askQuote (sc : SizeCast Q) (b : RithmicOrderBook P Q) (info : QuoteInfo P) :
    Option (RithmicOrderBook P Q) := quote sc true b info

def bidQuote (sc : SizeCast Q) (b : RithmicOrderBook P Q) (info : QuoteInfo P) :
    Option (RithmicOrderBook P Q) := quote sc false b info

def endQuote (b : RithmicOrderBook P Q) : Option (RithmicOrderBook P Q) :=
  if b.batchActive then b.commitBatch else some b

def quoteCallback (sc : SizeCast Q) (b : RithmicOrderBook P Q) :
    QuoteCallback P → Option (RithmicOrderBook P Q)
  | .askQuote info => askQuote sc b info
  | .bidQuote info => bidQuote sc b info
  | .endQuote => b.endQuote

/-- One update loop of `LimitOrderBook`, with `k` entries left from `i` on. -/
def updateLoop (sc : SizeCast Q) (prices : Nat → P) (sizes : Nat → Int64) (isAsk : Bool) :
    (k i : Nat) → RithmicOrderBook P Q → Option (RithmicOrderBook P Q)
  | 0, _, b => some b
  | k + 1, i, b => do
    let b ← b.applyLevel (prices i) (sc.cast (sizes i)) isAsk
    updateLoop sc prices sizes isAsk k (i + 1) b

/-- The number of entries an update reads: `static_cast<uint32_t>(len)`, at most `maxd`. -/
def updateCount (maxDepthLevels : UInt32) (len : Int32) : Nat :=
  min len.toUInt32.toNat (min maxDepthLevels.toNat kMaxOrderbookLevels)

def limitOrderBook (sc : SizeCast Q) (maxDepthLevels : UInt32) (b : RithmicOrderBook P Q)
    (info : LimitOrderBookInfo P) : Option (RithmicOrderBook P Q) :=
  if info.iType = kMdImageCb then do
    let b ← b.applyImage sc info.adAskPriceArray info.allAskSizeArray info.iAskArrayLen.toInt true
    b.applyImage sc info.adBidPriceArray info.allBidSizeArray info.iBidArrayLen.toInt false
  else do
    let b ← updateLoop sc info.adAskPriceArray info.allAskSizeArray true
      (updateCount maxDepthLevels info.iAskArrayLen) 0 b
    updateLoop sc info.adBidPriceArray info.allBidSizeArray false
      (updateCount maxDepthLevels info.iBidArrayLen) 0 b

/-- Any callback on the book, for a gateway configured with `maxDepthLevels`. -/
def callback (sc : SizeCast Q) (maxDepthLevels : UInt32) (b : RithmicOrderBook P Q) :
    Callback P → Option (RithmicOrderBook P Q)
  | .quote c => quoteCallback sc b c
  | .limitOrderBook info => limitOrderBook sc maxDepthLevels b info

end RithmicOrderBook
end Sqc
