import SmartQuantCollector.Lib.SpinLock
import SmartQuantCollector.RithmicGateway.BookSlots

/-! # Callbacks access by access

`RithmicOrderBook` has a spin lock, and every callback does its work on a book between `Lock` and
`Unlock`. Here the work is cut into accesses to the levels (`callbackProg`): one for each level that
is applied, buffered, replayed or copied into a snapshot, and one for each counter or flag that is
read or set. Without interruption they amount to the callback (`run_callbackProg`), so that sections
one after the other are the gateway with one thread (`serial_callbackProg`). -/

namespace Sqc

open CountedArray Concurrency RithmicOrderBook SpinLock

/-- A book, and the depth events that were pushed from it. -/
structure BookCell (P Q : Type) where
  book : BookSlot P Q
  pushed : List (DepthEvent P Q)

/-- A book callback, with what it was called with. -/
abbrev BookCallback (P : Type) := CallHeader × Callback P

namespace BookCell

variable {P Q : Type}

def setLevels (x : BookCell P Q) (levels : RithmicOrderBook P Q) : BookCell P Q :=
  { x with book := { x.book with levels := levels } }

/-- An access to the levels of the book. -/
def onLevels (f : RithmicOrderBook P Q → Option (RithmicOrderBook P Q)) : Prog (BookCell P Q) :=
  .op fun x => (f x.book.levels).map x.setLevels

/-! ## `PushSnapshot` -/

/-- A loop of `SnapshotTo`, with `k` levels left from `i` on. -/
def copyLoop (isAsk : Bool) (next : List (Level P Q) → Prog (BookCell P Q)) :
    (k i : Nat) → List (Level P Q) → Prog (BookCell P Q)
  | 0, _, copied => next copied
  | k + 1, i, copied =>
    .read fun x => (CountedArray.read (x.book.levels.side isAsk).slots i).elim .fail fun l =>
      copyLoop isAsk next k (i + 1) (copied ++ [l])

/-- The count of a side and its levels, one after the other. -/
def copySide (isAsk : Bool) (next : List (Level P Q) → Prog (BookCell P Q)) :
    Prog (BookCell P Q) :=
  .read fun x => copyLoop isAsk next (x.book.levels.side isAsk).count 0 []

def pushSnapshot (header : CallHeader) : Prog (BookCell P Q) :=
  .read fun x =>
    (resolveRithmicExchangeTimestamp header.timestamp x.book.levels.bids.count
      x.book.levels.asks.count header.systemMicros).elim .done fun ts =>
        .read fun y =>
          copySide false fun bids => copySide true fun asks =>
            .op fun z => some { z with pushed := z.pushed ++ [{
              channelId := y.book.channelId
              exchangeTimestamp := ts
              localDiff := header.steadyNs
              symbol := copyUntilZero (.replicate 12 0) (y.book.symbol.toList.getD · 0)
              bids := bids
              asks := asks }] }

/-- `PushSnapshot` at once. -/
def push (x : BookCell P Q) (header : CallHeader) : BookCell P Q :=
  (resolveRithmicExchangeTimestamp header.timestamp x.book.levels.bids.count
    x.book.levels.asks.count header.systemMicros).elim x fun ts =>
      { x with pushed := x.pushed ++ [x.book.snapshotTo ts header.steadyNs] }

/-! ## The callbacks -/

variable [LinearOrder P] [LinearOrder Q] [Zero Q]

omit [LinearOrder P] in
/-- The loop of `ApplyImage`, with `k` entries left from `i` on. -/
def imageLoop (sc : SizeCast Q) (prices : Nat → P) (sizes : Nat → Int64) (isAsk : Bool) :
    (k i : Nat) → Prog (BookCell P Q)
  | 0, _ => .done
  | k + 1, i =>
    .read fun x =>
      if (x.book.levels.side isAsk).count < kMaxOrderbookLevels then
        if 0 < sizes i then
          (onLevels fun b => ((b.side isAsk).push ⟨prices i, sc.cast (sizes i)⟩).map
            (b.setSide · isAsk)).andThen (imageLoop sc prices sizes isAsk k (i + 1))
        else imageLoop sc prices sizes isAsk k (i + 1)
      else .done

omit [LinearOrder P] in
def applyImage (sc : SizeCast Q) (prices : Nat → P) (sizes : Nat → Int64) (count : Int)
    (isAsk : Bool) : Prog (BookCell P Q) :=
  (onLevels fun b => some (b.setSide (b.side isAsk).reset isAsk)).andThen
    (imageLoop sc prices sizes isAsk count.toNat 0)

def updateLoop (sc : SizeCast Q) (prices : Nat → P) (sizes : Nat → Int64) (isAsk : Bool) :
    (k i : Nat) → Prog (BookCell P Q)
  | 0, _ => .done
  | k + 1, i =>
    (onLevels fun b => b.applyLevel (prices i) (sc.cast (sizes i)) isAsk).andThen
      (updateLoop sc prices sizes isAsk k (i + 1))

/-- One loop of `CommitBatch`, with `k` pending levels left from `i` on. -/
def commitLoop (isAsk : Bool) : (k i : Nat) → Prog (BookCell P Q)
  | 0, _ => .done
  | k + 1, i =>
    (onLevels fun b => do
      let l ← CountedArray.read (b.pending isAsk).slots i
      b.applyLevel l.price l.quantity isAsk).andThen (commitLoop isAsk k (i + 1))

def commitBatch : Prog (BookCell P Q) :=
  (Prog.read fun x => commitLoop false x.book.levels.pendingBids.count 0).andThen <|
    (Prog.read fun x => commitLoop true x.book.levels.pendingAsks.count 0).andThen <|
      onLevels fun b => some b.cancelBatch

omit [LinearOrder P] in
def bufferQuote (sc : SizeCast Q) (isAsk : Bool) (info : QuoteInfo P) : Prog (BookCell P Q) :=
  onLevels fun b => b.bufferQuote sc isAsk info

/-- `AskQuote` and `BidQuote` between `Lock` and `Unlock`. -/
def quote (sc : SizeCast Q) (isAsk : Bool) (header : CallHeader) (info : QuoteInfo P) :
    Prog (BookCell P Q) :=
  match UpdateType.ofCode info.iUpdateType with
  | .solo =>
    (if info.bPriceFlag then
      onLevels fun b => b.applyLevel info.dPrice (info.level sc).quantity isAsk
    else .done).andThen (pushSnapshot header)
  | .begin =>
    (Prog.read fun x =>
      if x.book.levels.batchActive then onLevels fun b => some b.cancelBatch else .done).andThen <|
        (onLevels fun b => some b.beginBatch).andThen (bufferQuote sc isAsk info)
  | .middle =>
    (Prog.read fun x =>
      if !x.book.levels.batchActive then onLevels fun b => some b.beginBatch else .done).andThen
        (bufferQuote sc isAsk info)
  | .end_ => (bufferQuote sc isAsk info).andThen (commitBatch.andThen (pushSnapshot header))
  | .clear => (onLevels fun b => some b.clear).andThen (pushSnapshot header)
  | .other => .done

/-- `EndQuote` between `Lock` and `Unlock`. -/
def endQuote (header : CallHeader) : Prog (BookCell P Q) :=
  .read fun x =>
    if x.book.levels.batchActive then commitBatch.andThen (pushSnapshot header) else .done

/-- `LimitOrderBook` between `Lock` and `Unlock`. -/
def limitOrderBook (sc : SizeCast Q) (maxDepthLevels : UInt32) (header : CallHeader)
    (info : LimitOrderBookInfo P) : Prog (BookCell P Q) :=
  (if info.iType = kMdImageCb then
    (applyImage sc info.adAskPriceArray info.allAskSizeArray info.iAskArrayLen.toInt true).andThen
      (applyImage sc info.adBidPriceArray info.allBidSizeArray info.iBidArrayLen.toInt false)
  else
    (updateLoop sc info.adAskPriceArray info.allAskSizeArray true
      (updateCount maxDepthLevels info.iAskArrayLen) 0).andThen
      (updateLoop sc info.adBidPriceArray info.allBidSizeArray false
        (updateCount maxDepthLevels info.iBidArrayLen) 0)).andThen (pushSnapshot header)

/-- What a callback does under the lock of the book. -/
def callbackProg (sc : SizeCast Q) (maxDepthLevels : UInt32) :
    BookCallback P → Prog (BookCell P Q)
  | (header, .quote (.askQuote info)) => quote sc true header info
  | (header, .quote (.bidQuote info)) => quote sc false header info
  | (header, .quote .endQuote) => endQuote header
  | (header, .limitOrderBook info) => limitOrderBook sc maxDepthLevels header info

/-- The callback at once. -/
def onCallback (sc : SizeCast Q) (maxDepthLevels : UInt32) (x : BookCell P Q)
    (c : BookCallback P) : Option (BookCell P Q) :=
  (callback sc maxDepthLevels x.book.levels c.2).map fun levels =>
    if c.2.pushes x.book.levels then (x.setLevels levels).push c.1 else x.setLevels levels

/-! ## A callback without interruption -/

/-- The events pushed so far stay. -/
def Extends (x y : BookCell P Q) : Prop := x.pushed <+: y.pushed

/-- Run without interruption, the program changes the levels by `f` and nothing else. With or
without, it takes no event back. -/
structure ActsAs (p : Prog (BookCell P Q))
    (f : RithmicOrderBook P Q → Option (RithmicOrderBook P Q)) : Prop where
  run : ∀ x, p.run x = (f x.book.levels).map x.setLevels
  along : p.Along Extends

section
omit [LinearOrder P] [LinearOrder Q] [Zero Q]

instance : Std.Refl (Extends (P := P) (Q := Q)) := ⟨fun x => List.prefix_rfl (l := x.pushed)⟩

instance : IsTrans (BookCell P Q) Extends := ⟨fun _ _ _ => List.IsPrefix.trans⟩

theorem actsAs_done : ActsAs (.done : Prog (BookCell P Q)) some := ⟨fun _ => rfl, .done⟩

theorem actsAs_onLevels (f : RithmicOrderBook P Q → Option (RithmicOrderBook P Q)) :
    ActsAs (onLevels f) f := by
  refine ⟨fun _ => Prog.run_op _ _, .op fun x y hy => ?_⟩
  obtain ⟨b, -, rfl⟩ := Option.map_eq_some_iff.mp hy
  exact List.prefix_rfl

namespace ActsAs

variable {p q : Prog (BookCell P Q)}
  {f g : RithmicOrderBook P Q → Option (RithmicOrderBook P Q)}

theorem andThen (hp : ActsAs p f) (hq : ActsAs q g) :
    ActsAs (p.andThen q) fun b => (f b).bind g := by
  refine ⟨fun x => ?_, hp.along.andThen hq.along⟩
  rw [Prog.run_andThen, hp.run]
  show _ = ((f x.book.levels).bind g).map x.setLevels
  cases f x.book.levels with
  | none => rfl
  | some b => exact hq.run (x.setLevels b)

theorem read {p : RithmicOrderBook P Q → Prog (BookCell P Q)}
    {f : RithmicOrderBook P Q → RithmicOrderBook P Q → Option (RithmicOrderBook P Q)}
    (h : ∀ b, ActsAs (p b) (f b)) : ActsAs (.read fun x => p x.book.levels) fun b => f b b :=
  ⟨fun x => (h x.book.levels).run x, .read fun x => (h x.book.levels).along⟩

theorem ite {c : Prop} [Decidable c] (hp : ActsAs p f) (hq : ActsAs q g) :
    ActsAs (if c then p else q) fun b => if c then f b else g b := by
  split
  next => exact hp
  next => exact hq

theorem congr (h : ActsAs p f) (hfg : ∀ b, f b = g b) : ActsAs p g :=
  funext hfg ▸ h

end ActsAs

theorem setSide_setSide (b : RithmicOrderBook P Q) (levels levels' : Levels P Q) (isAsk : Bool) :
    (b.setSide levels isAsk).setSide levels' isAsk = b.setSide levels' isAsk := by
  cases isAsk <;> rfl

theorem setSide_self (b : RithmicOrderBook P Q) (isAsk : Bool) :
    b.setSide (b.side isAsk) isAsk = b := by
  cases isAsk <;> rfl

end

section
omit [LinearOrder P]

theorem actsAs_imageLoop (sc : SizeCast Q) (prices : Nat → P) (sizes : Nat → Int64) (isAsk : Bool)
    (k i : Nat) :
    ActsAs (imageLoop sc prices sizes isAsk k i) fun b =>
      (RithmicOrderBook.imageLoop sc prices sizes k i (b.side isAsk)).map (b.setSide · isAsk) := by
  induction k generalizing i with
  | zero =>
    refine actsAs_done.congr fun b => ?_
    rw [RithmicOrderBook.imageLoop, Option.map_some, setSide_self]
  | succ k ih =>
    refine (ActsAs.read fun b => ((((actsAs_onLevels _).andThen (ih (i + 1))).ite (ih (i + 1))).ite
      (c := (b.side isAsk).count < kMaxOrderbookLevels) actsAs_done)).congr fun b => ?_
    simp only [RithmicOrderBook.imageLoop]
    split
    next =>
      split
      next =>
        cases (b.side isAsk).push ⟨prices i, sc.cast (sizes i)⟩ with
        | none => rfl
        | some levels =>
          simp only [Option.map_some, Option.bind_some, Option.bind_eq_bind, setSide_side,
            setSide_setSide]
      next => rfl
    next => rw [Option.map_some, setSide_self]

theorem actsAs_applyImage (sc : SizeCast Q) (prices : Nat → P) (sizes : Nat → Int64) (count : Int)
    (isAsk : Bool) :
    ActsAs (applyImage sc prices sizes count isAsk) fun b =>
      b.applyImage sc prices sizes count isAsk := by
  refine ((actsAs_onLevels _).andThen (actsAs_imageLoop sc prices sizes isAsk _ _)).congr
    fun b => ?_
  rw [Option.bind_some, setSide_side, RithmicOrderBook.applyImage]
  simp only [setSide_setSide]
  exact Option.map_eq_bind

end

theorem actsAs_updateLoop (sc : SizeCast Q) (prices : Nat → P) (sizes : Nat → Int64)
    (isAsk : Bool) (k i : Nat) :
    ActsAs (updateLoop sc prices sizes isAsk k i)
      (RithmicOrderBook.updateLoop sc prices sizes isAsk k i) := by
  induction k generalizing i with
  | zero => exact actsAs_done
  | succ k ih => exact (actsAs_onLevels _).andThen (ih (i + 1))

theorem actsAs_commitLoop (isAsk : Bool) (k i : Nat) :
    ActsAs (commitLoop (P := P) (Q := Q) isAsk k i) (RithmicOrderBook.commitLoop isAsk k i) := by
  induction k generalizing i with
  | zero => exact actsAs_done
  | succ k ih =>
    refine ((actsAs_onLevels _).andThen (ih (i + 1))).congr fun b => ?_
    exact Option.bind_assoc ..

theorem actsAs_commitBatch : ActsAs (commitBatch : Prog (BookCell P Q)) (·.commitBatch) := by
  refine ((ActsAs.read fun b => actsAs_commitLoop false b.pendingBids.count 0).andThen
    ((ActsAs.read fun b => actsAs_commitLoop true b.pendingAsks.count 0).andThen
      (actsAs_onLevels _))).congr fun b => ?_
  rfl

/-! ### Snapshots -/

section
omit [LinearOrder P] [LinearOrder Q] [Zero Q]

theorem run_copyLoop {isAsk : Bool} {next : List (Level P Q) → Prog (BookCell P Q)} {k i : Nat}
    {copied : List (Level P Q)} {x : BookCell P Q} (h : i + k ≤ kMaxOrderbookLevels) :
    (copyLoop isAsk next k i copied).run x =
      (next (copied ++ ((x.book.levels.side isAsk).slots.toList.drop i).take k)).run x := by
  induction k generalizing i copied with
  | zero => rw [copyLoop, List.take_zero, List.append_nil]
  | succ k ih =>
    have hlt : i < (x.book.levels.side isAsk).slots.toList.length := by
      rw [Vector.length_toList]
      omega
    rw [copyLoop, Prog.run_read, read_eq_some (show i < kMaxOrderbookLevels by omega),
      Option.elim_some, ih (by omega), List.drop_eq_getElem_cons hlt, List.take_succ_cons,
      List.append_assoc, Vector.getElem_toList]
    rfl

theorem run_copySide {isAsk : Bool} {next : List (Level P Q) → Prog (BookCell P Q)}
    {x : BookCell P Q} (h : (x.book.levels.side isAsk).count ≤ kMaxOrderbookLevels) :
    (copySide isAsk next).run x = (next (x.book.levels.side isAsk).toList).run x := by
  rw [copySide, Prog.run_read, run_copyLoop (by omega), List.nil_append, List.drop_zero]
  rfl

theorem run_pushSnapshot {x : BookCell P Q} (header : CallHeader)
    (h : ∀ isAsk, (x.book.levels.side isAsk).count ≤ kMaxOrderbookLevels) :
    (pushSnapshot header).run x = some (x.push header) := by
  rw [pushSnapshot, Prog.run_read, push]
  cases resolveRithmicExchangeTimestamp header.timestamp x.book.levels.bids.count
    x.book.levels.asks.count header.systemMicros with
  | none => rfl
  | some ts =>
    rw [Option.elim_some, Option.elim_some, Prog.run_read, run_copySide (h false),
      run_copySide (h true)]
    rfl

theorem along_copyLoop {isAsk : Bool} {next : List (Level P Q) → Prog (BookCell P Q)}
    (hnext : ∀ levels, (next levels).Along Extends) (k i : Nat) (copied : List (Level P Q)) :
    (copyLoop isAsk next k i copied).Along Extends := by
  induction k generalizing i copied with
  | zero => exact hnext copied
  | succ k ih =>
    refine .read fun x => ?_
    cases CountedArray.read (x.book.levels.side isAsk).slots i with
    | none => exact .fail
    | some l => exact ih _ _

theorem along_pushSnapshot (header : CallHeader) :
    (pushSnapshot header : Prog (BookCell P Q)).Along Extends := by
  refine .read fun x => ?_
  cases resolveRithmicExchangeTimestamp header.timestamp x.book.levels.bids.count
    x.book.levels.asks.count header.systemMicros with
  | none => trivial
  | some ts =>
    refine .read fun y => .read fun _ => along_copyLoop (fun bids => .read fun _ =>
      along_copyLoop (fun asks => .op fun z w hw => ?_) _ _ _) _ _ _
    cases hw
    exact List.prefix_append _ _

/-- A program on the levels, then `PushSnapshot`. -/
theorem ActsAs.run_andThen_pushSnapshot {p : Prog (BookCell P Q)}
    {f : RithmicOrderBook P Q → Option (RithmicOrderBook P Q)} (hp : ActsAs p f) {x : BookCell P Q}
    (header : CallHeader) {S : Bool → List (Level P Q) → Prop} {T : Bool → Level P Q → Prop}
    (hf : ∃ b, f x.book.levels = some b ∧ Inv S T b) :
    (p.andThen (pushSnapshot header)).run x =
      (f x.book.levels).map fun b => (x.setLevels b).push header := by
  obtain ⟨b, hb, hinv⟩ := hf
  have hcount : ∀ isAsk, ((x.setLevels b).book.levels.side isAsk).count ≤ kMaxOrderbookLevels :=
    hinv.count_le
  rw [Prog.run_andThen, hp.run, hb, Option.map_some, Option.bind_some, Option.map_some,
    run_pushSnapshot header hcount]

end

/-! ### The callbacks -/

variable {sc : SizeCast Q} {maxDepthLevels : UInt32} {x : BookCell P Q}

/-- No count exceeds its array. -/
def LevelsOk (x : BookCell P Q) : Prop := Inv (fun _ _ => True) (fun _ _ => True) x.book.levels

theorem LevelsOk.callback (h : LevelsOk x) (sc : SizeCast Q) (maxDepthLevels : UInt32)
    (c : Callback P) : ∃ b, callback sc maxDepthLevels x.book.levels c = some b ∧
      Inv (fun _ _ => True) (fun _ _ => True) b :=
  Inv.callback MyCallbacks.closed_true h (fun _ _ _ => trivial) fun _ _ _ => trivial

theorem run_quote (h : LevelsOk x) (isAsk : Bool) (header : CallHeader) (info : QuoteInfo P) :
    (quote sc isAsk header info).run x =
      (RithmicOrderBook.quote sc isAsk x.book.levels info).map fun b =>
        if (Callback.quote (.askQuote info)).pushes x.book.levels then (x.setLevels b).push header
        else x.setLevels b := by
  have htotal : ∃ b, RithmicOrderBook.quote sc isAsk x.book.levels info = some b ∧
      Inv (fun _ _ => True) (fun _ _ => True) b :=
    Inv.quote MyCallbacks.closed_true h fun _ _ => trivial
  cases hcode : UpdateType.ofCode info.iUpdateType with
  | solo =>
    simp only [quote, RithmicOrderBook.quote, Callback.pushes, hcode, if_true] at htotal ⊢
    exact ((actsAs_onLevels _).ite actsAs_done).run_andThen_pushSnapshot header htotal
  | begin =>
    simp only [quote, RithmicOrderBook.quote, Callback.pushes, hcode, Bool.false_eq_true, if_false]
    refine (((ActsAs.read fun b => (actsAs_onLevels fun b => some b.cancelBatch).ite
      (c := b.batchActive = true) actsAs_done).andThen
        ((actsAs_onLevels fun b => some b.beginBatch).andThen (actsAs_onLevels _))).run x).trans ?_
    cases x.book.levels.batchActive <;> rfl
  | middle =>
    simp only [quote, RithmicOrderBook.quote, Callback.pushes, hcode, Bool.false_eq_true, if_false]
    refine (((ActsAs.read fun b => (actsAs_onLevels fun b => some b.beginBatch).ite
      (c := (!b.batchActive) = true) actsAs_done).andThen (actsAs_onLevels _)).run x).trans ?_
    cases x.book.levels.batchActive <;> rfl
  | end_ =>
    simp only [quote, RithmicOrderBook.quote, Callback.pushes, hcode, if_true] at htotal ⊢
    have hacts : ActsAs ((bufferQuote sc isAsk info).andThen commitBatch) fun b =>
        (b.bufferQuote sc isAsk info).bind (·.commitBatch) :=
      (actsAs_onLevels _).andThen actsAs_commitBatch
    rw [Prog.andThen_assoc]
    exact hacts.run_andThen_pushSnapshot header htotal
  | clear =>
    simp only [quote, RithmicOrderBook.quote, Callback.pushes, hcode, if_true] at htotal ⊢
    exact (actsAs_onLevels _).run_andThen_pushSnapshot header htotal
  | other =>
    simp only [quote, RithmicOrderBook.quote, Callback.pushes, hcode, Bool.false_eq_true, if_false]
    rfl

theorem actsAs_limitOrderBook (info : LimitOrderBookInfo P) :
    ActsAs (if info.iType = kMdImageCb then
        (applyImage sc info.adAskPriceArray info.allAskSizeArray info.iAskArrayLen.toInt
          true).andThen
          (applyImage sc info.adBidPriceArray info.allBidSizeArray info.iBidArrayLen.toInt false)
      else
        (updateLoop sc info.adAskPriceArray info.allAskSizeArray true
          (updateCount maxDepthLevels info.iAskArrayLen) 0).andThen
          (updateLoop sc info.adBidPriceArray info.allBidSizeArray false
            (updateCount maxDepthLevels info.iBidArrayLen) 0))
      fun b => RithmicOrderBook.limitOrderBook sc maxDepthLevels b info :=
  ((actsAs_applyImage sc _ _ _ true).andThen (actsAs_applyImage sc _ _ _ false)).ite
    ((actsAs_updateLoop sc _ _ true _ 0).andThen (actsAs_updateLoop sc _ _ false _ 0))

/-- Run without interruption, the program of a callback is the callback. -/
theorem run_callbackProg (h : LevelsOk x) (c : BookCallback P) :
    (callbackProg sc maxDepthLevels c).run x = onCallback sc maxDepthLevels x c := by
  obtain ⟨header, c⟩ := c
  have htotal := h.callback sc maxDepthLevels c
  cases c with
  | quote c =>
    cases c with
    | askQuote info => exact run_quote h true header info
    | bidQuote info => exact run_quote h false header info
    | endQuote =>
      simp only [callbackProg, endQuote, Prog.run_read, onCallback, Callback.pushes,
        RithmicOrderBook.callback, quoteCallback, RithmicOrderBook.endQuote] at htotal ⊢
      by_cases hactive : x.book.levels.batchActive = true
      · simp only [hactive, if_true] at htotal ⊢
        exact actsAs_commitBatch.run_andThen_pushSnapshot header htotal
      · simp only [hactive]
        rfl
  | limitOrderBook info =>
    exact (actsAs_limitOrderBook info).run_andThen_pushSnapshot header htotal

theorem along_quote (isAsk : Bool) (header : CallHeader) (info : QuoteInfo P) :
    (quote sc isAsk header info).Along Extends := by
  have hpush := along_pushSnapshot (P := P) (Q := Q) header
  unfold quote
  split
  · exact ((actsAs_onLevels _).ite actsAs_done).along.andThen hpush
  · exact ((ActsAs.read fun b => (actsAs_onLevels _).ite (c := b.batchActive = true)
      actsAs_done).andThen ((actsAs_onLevels _).andThen (actsAs_onLevels _))).along
  · exact ((ActsAs.read fun b => (actsAs_onLevels _).ite (c := (!b.batchActive) = true)
      actsAs_done).andThen (actsAs_onLevels _)).along
  · exact (actsAs_onLevels _).along.andThen (actsAs_commitBatch.along.andThen hpush)
  · exact (actsAs_onLevels _).along.andThen hpush
  · trivial

theorem along_callbackProg (c : BookCallback P) :
    (callbackProg sc maxDepthLevels c).Along Extends := by
  obtain ⟨header, c⟩ := c
  have hpush := along_pushSnapshot (P := P) (Q := Q) header
  cases c with
  | quote c =>
    cases c with
    | askQuote info => exact along_quote true header info
    | bidQuote info => exact along_quote false header info
    | endQuote =>
      refine .read fun x => ?_
      split
      · exact actsAs_commitBatch.along.andThen hpush
      · trivial
  | limitOrderBook info => exact (actsAs_limitOrderBook info).along.andThen hpush

end BookCell

/-! ## One thread -/

namespace MyCallbacks

variable {P Q : Type} [LinearOrder P] [LinearOrder Q] [Zero Q] {sc : SizeCast Q}
  {maxDepthLevels : UInt32} {g : MyCallbacks P Q}

omit [LinearOrder P] [LinearOrder Q] [Zero Q] in
def cell (g : MyCallbacks P Q) (idx : UInt8) : BookCell P Q := ⟨g.books idx, g.depthQueue⟩

/-- The callbacks on one book, one after the other. -/
def onBooks (sc : SizeCast Q) (maxDepthLevels : UInt32) (idx : UInt8) (g : MyCallbacks P Q)
    (cs : List (BookCallback P)) : Option (MyCallbacks P Q) :=
  cs.foldlM (fun g c => g.onBook sc maxDepthLevels idx c.1 c.2) g

variable (sc maxDepthLevels) in
theorem onCallback_cell (g : MyCallbacks P Q) (idx : UInt8) (c : BookCallback P) :
    BookCell.onCallback sc maxDepthLevels (g.cell idx) c =
      (onBook sc maxDepthLevels g idx c.1 c.2).map (·.cell idx) := by
  obtain ⟨header, c⟩ := c
  rw [BookCell.onCallback, onBook]
  show Option.map _ (callback sc maxDepthLevels (g.books idx).levels c) = _
  cases callback sc maxDepthLevels (g.books idx).levels c with
  | none => rfl
  | some levels =>
    have hself : (g.setLevels idx levels).books idx = { g.books idx with levels := levels } :=
      Function.update_self ..
    have hcell : (g.setLevels idx levels).cell idx = (g.cell idx).setLevels levels := by
      rw [cell, hself]
      rfl
    simp only [Option.map_some, Option.bind_eq_bind, Option.bind_some, Option.pure_def]
    show some (if c.pushes (g.books idx).levels = true then _ else _) = _
    split
    next =>
      rw [← hcell, pushSnapshot, BookCell.push]
      show some (Option.elim (resolveRithmicExchangeTimestamp header.timestamp
        ((g.setLevels idx levels).books idx).levels.bids.count
        ((g.setLevels idx levels).books idx).levels.asks.count header.systemMicros) _ _) = _
      cases resolveRithmicExchangeTimestamp header.timestamp
        ((g.setLevels idx levels).books idx).levels.bids.count
        ((g.setLevels idx levels).books idx).levels.asks.count header.systemMicros <;> rfl
    next => rw [hcell]

variable (sc maxDepthLevels) in
theorem serial_callbackProg {ι : Type*} (hg : g.LevelsOk) (idx : UInt8)
    (cs : List (ι × BookCallback P)) :
    ∃ t, onBooks sc maxDepthLevels idx g (cs.map Prod.snd) = some t ∧
      serial (BookCell.callbackProg sc maxDepthLevels) (g.cell idx) cs = some (t.cell idx) := by
  induction cs generalizing g with
  | nil => exact ⟨g, rfl, rfl⟩
  | cons c cs ih =>
    have htotal : ∃ u, onBook sc maxDepthLevels g idx c.2.1 c.2.2 = some u ∧ LevelsOk u :=
      onBook_total hg idx
    obtain ⟨u, hu, hok⟩ := htotal
    obtain ⟨t, ht, hserial⟩ := ih hok
    refine ⟨t, ?_, ?_⟩
    · rw [onBooks, List.map_cons, List.foldlM_cons, hu]
      exact ht
    · have hrun : (BookCell.callbackProg sc maxDepthLevels c.2).run (g.cell idx) =
          some (u.cell idx) := by
        rw [BookCell.run_callbackProg (x := g.cell idx) (hg idx), onCallback_cell, hu]
        rfl
      rw [serial, List.foldlM_cons, hrun]
      exact hserial

end MyCallbacks

end Sqc
