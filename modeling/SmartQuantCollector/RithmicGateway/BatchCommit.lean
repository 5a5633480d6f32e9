import SmartQuantCollector.RithmicGateway.Callbacks

/-! # A batch of quotes is applied as a whole

A history variable collects the levels of the batch that is being received, as the callbacks carry
them: a `BEGIN` starts it anew, a `MIDDLE` or an `END` adds to it, an `END`, an `EndQuote` or a
`CLEAR` closes it. `CommitBatch` replays the bids before the asks; since the two sides are separate
arrays that is the same as `ApplyLevel` in arrival order. -/

namespace Sqc

open CountedArray Concurrency

variable {P Q : Type}

/-! ## The levels of one side -/

/-- The levels for one side, in order. -/
def only (isAsk : Bool) (levels : List (Bool × Level P Q)) : List (Level P Q) :=
  levels.filterMap fun l => if l.1 = isAsk then some l.2 else none

@[simp] theorem only_nil (isAsk : Bool) : only isAsk ([] : List (Bool × Level P Q)) = [] := rfl

theorem only_append (isAsk : Bool) (levels levels' : List (Bool × Level P Q)) :
    only isAsk (levels ++ levels') = only isAsk levels ++ only isAsk levels' :=
  List.filterMap_append

@[simp] theorem only_cons_self (isAsk : Bool) (l : Level P Q) (levels : List (Bool × Level P Q)) :
    only isAsk ((isAsk, l) :: levels) = l :: only isAsk levels := by
  simp [only]

theorem only_cons_of_ne {isAsk isAsk' : Bool} (h : isAsk ≠ isAsk') (l : Level P Q)
    (levels : List (Bool × Level P Q)) :
    only isAsk' ((isAsk, l) :: levels) = only isAsk' levels := by
  simp [only, h]

theorem only_map_self (isAsk : Bool) (levels : List (Level P Q)) :
    only isAsk (levels.map (isAsk, ·)) = levels := by
  induction levels with
  | nil => rfl
  | cons l levels ih => rw [List.map_cons, only_cons_self, ih]

theorem only_map_of_ne {isAsk isAsk' : Bool} (h : isAsk ≠ isAsk') (levels : List (Level P Q)) :
    only isAsk' (levels.map (isAsk, ·)) = [] := by
  induction levels with
  | nil => rfl
  | cons l levels ih => rw [List.map_cons, only_cons_of_ne h, ih]

namespace RithmicOrderBook

theorem only_batch (b : RithmicOrderBook P Q) (isAsk : Bool) :
    only isAsk b.batch = (b.pending isAsk).toList := by
  cases isAsk with
  | false =>
    rw [batch, only_append, only_map_self, only_map_of_ne Bool.false_ne_true.symm, List.append_nil]
    rfl
  | true =>
    rw [batch, only_append, only_map_self, only_map_of_ne Bool.false_ne_true, List.nil_append]
    rfl

/-! ## What the batch operations do to the pending levels -/

/-- The pending arrays hold the given levels, and no count exceeds its array. -/
structure Holds (b : RithmicOrderBook P Q) (levels : List (Bool × Level P Q)) : Prop where
  count_le : ∀ isAsk, (b.side isAsk).count ≤ kMaxOrderbookLevels
  pending_le : ∀ isAsk, (b.pending isAsk).count ≤ kMaxOrderbookLevels
  pending : ∀ isAsk, (b.pending isAsk).toList = only isAsk levels

/-- The same book: the arrays of both sides and the flag. -/
structure SameBook (b b' : RithmicOrderBook P Q) : Prop where
  bids : b'.bids = b.bids
  asks : b'.asks = b.asks
  batchActive : b'.batchActive = b.batchActive

variable {b : RithmicOrderBook P Q} {levels : List (Bool × Level P Q)}

theorem Holds.pending_count (h : Holds b []) (isAsk : Bool) : (b.pending isAsk).count = 0 := by
  rw [← length_toList (h.pending_le isAsk), h.pending, only_nil, List.length_nil]

theorem Holds.beginBatch (h : Holds b levels) : Holds b.beginBatch [] where
  count_le
    | true => h.count_le true
    | false => h.count_le false
  pending_le isAsk := by cases isAsk <;> exact Nat.zero_le _
  pending isAsk := by cases isAsk <;> rfl

theorem Holds.cancelBatch (h : Holds b levels) : Holds b.cancelBatch [] where
  count_le
    | true => h.count_le true
    | false => h.count_le false
  pending_le isAsk := by cases isAsk <;> exact Nat.zero_le _
  pending isAsk := by cases isAsk <;> rfl

theorem holds_clear (b : RithmicOrderBook P Q) : Holds b.clear [] where
  count_le isAsk := by cases isAsk <;> exact Nat.zero_le _
  pending_le isAsk := by cases isAsk <;> exact Nat.zero_le _
  pending isAsk := by cases isAsk <;> rfl

theorem Holds.bufferLevel (h : Holds b levels) {isAsk : Bool} {l : Level P Q}
    (hfit : (only isAsk (levels ++ [(isAsk, l)])).length ≤ kMaxOrderbookLevels) :
    ∃ b', b.bufferLevel l.price l.quantity isAsk = some b' ∧
      Holds b' (levels ++ [(isAsk, l)]) ∧ SameBook b b' := by
  have hlt : (b.pending isAsk).count < kMaxOrderbookLevels := by
    rw [← length_toList (h.pending_le isAsk), h.pending]
    rw [only_append, List.length_append, only_cons_self] at hfit
    exact Nat.lt_of_lt_of_le (Nat.lt_add_of_pos_right (Nat.succ_pos _)) hfit
  obtain ⟨side, hpush, hcount, hlist⟩ := push_eq_some l hlt
  refine ⟨b.setPending side isAsk, ?_, ⟨fun isAsk' => ?_, fun isAsk' => ?_, fun isAsk' => ?_⟩, ?_⟩
  · simp only [RithmicOrderBook.bufferLevel, if_neg (Nat.not_le.mpr hlt), hpush,
      Option.bind_eq_bind, Option.bind_some, Option.pure_def]
  · rw [setPending_side]
    exact h.count_le isAsk'
  · rcases Bool.eq_or_eq_not isAsk' isAsk with rfl | rfl
    · rw [setPending_pending]
      omega
    · rw [setPending_pending_not]
      exact h.pending_le _
  · rcases Bool.eq_or_eq_not isAsk' isAsk with rfl | rfl
    · rw [setPending_pending, hlist, h.pending, only_append, only_cons_self, only_nil]
    · rw [setPending_pending_not, h.pending, only_append, only_cons_of_ne (Bool.not_ne_self _).symm,
        only_nil, List.append_nil]
  · exact ⟨setPending_side b side isAsk false, setPending_side b side isAsk true,
      setPending_batchActive b side isAsk⟩

variable [LinearOrder P] [LinearOrder Q] [Zero Q]

/-! ## The two sides do not interfere -/

/-- `ApplyLevel` of each level on the array of one side. -/
def replaySide (isAsk : Bool) (side : Levels P Q) (levels : List (Level P Q)) :
    Option (Levels P Q) :=
  levels.foldlM (fun side l => applySide isAsk side l.price l.quantity) side

theorem applyAll_eq (b : RithmicOrderBook P Q) (levels : List (Bool × Level P Q)) :
    b.applyAll levels =
      (replaySide false b.bids (only false levels)).bind fun bids =>
        (replaySide true b.asks (only true levels)).map fun asks =>
          { b with bids := bids, asks := asks } := by
  induction levels generalizing b with
  | nil => rfl
  | cons l levels ih =>
    obtain ⟨isAsk, l⟩ := l
    rw [applyAll_cons]
    cases isAsk with
    | false =>
      rw [only_cons_self, only_cons_of_ne Bool.false_ne_true]
      simp only [applyLevel, replaySide, List.foldlM_cons, side, Option.bind_eq_bind,
        Option.pure_def, Option.bind_assoc, Option.bind_some]
      refine Option.bind_congr fun bids _ => ?_
      rw [ih]
      rfl
    | true =>
      rw [only_cons_self, only_cons_of_ne Bool.false_ne_true.symm]
      simp only [applyLevel, replaySide, List.foldlM_cons, side, Option.bind_eq_bind,
        Option.pure_def, Option.bind_assoc, Option.bind_some]
      -- the first ask and the bids are independent
      cases applySide true b.asks l.price l.quantity with
      | none => simp
      | some asks =>
        rw [Option.bind_some, ih]
        rfl

/-- Only the order within each side matters. -/
theorem applyAll_congr (b : RithmicOrderBook P Q) {levels levels' : List (Bool × Level P Q)}
    (h : ∀ isAsk, only isAsk levels = only isAsk levels') :
    b.applyAll levels = b.applyAll levels' := by
  rw [applyAll_eq, applyAll_eq, h, h]

/-- `b'` has the arrays that `ApplyLevel` of the levels in turn leaves. -/
def AppliedTo (b : RithmicOrderBook P Q) (levels : List (Bool × Level P Q))
    (b' : RithmicOrderBook P Q) : Prop :=
  ∃ k, b.applyAll levels = some k ∧ b'.bids = k.bids ∧ b'.asks = k.asks

theorem AppliedTo.of_sameBook {u b' : RithmicOrderBook P Q} (h : AppliedTo u levels b')
    (hu : SameBook b u) : AppliedTo b levels b' := by
  obtain ⟨k, hk, hbids, hasks⟩ := h
  rw [applyAll_eq, hu.bids, hu.asks] at hk
  obtain ⟨bids, hb, hk⟩ := Option.bind_eq_some_iff.mp hk
  obtain ⟨asks, ha, rfl⟩ := Option.map_eq_some_iff.mp hk
  exact ⟨{ b with bids := bids, asks := asks }, by rw [applyAll_eq, hb, ha]; rfl, hbids, hasks⟩

theorem Holds.applyAll (h : Holds b levels) (levels' : List (Bool × Level P Q)) :
    ∃ b', b.applyAll levels' = some b' ∧ Holds b' levels ∧ b'.batchActive = b.batchActive := by
  have hInv : Inv (fun _ _ => True) (fun _ _ => True) b :=
    ⟨h.count_le, h.pending_le, fun _ => trivial, fun _ _ _ => trivial⟩
  obtain ⟨b', hb', hInv'⟩ := hInv.applyAll
    ⟨fun _ => trivial, fun _ _ _ => trivial⟩ fun l (_ : l ∈ levels') => trivial
  refine ⟨b', hb', ⟨hInv'.count_le, hInv'.pending_le, fun isAsk => ?_⟩, ?_⟩
  · rw [applyAll_pending hb', h.pending]
  · rw [applyAll_eq, Option.bind_eq_some_iff] at hb'
    obtain ⟨_, -, hb'⟩ := hb'
    obtain ⟨_, -, rfl⟩ := Option.map_eq_some_iff.mp hb'
    rfl

/-- A commit of the levels a batch holds is their application in arrival order. -/
theorem Holds.commitBatch (h : Holds b levels) :
    ∃ b', b.commitBatch = some b' ∧ AppliedTo b levels b' ∧ Holds b' [] ∧
      b'.batchActive = false := by
  obtain ⟨k, hk, hHolds, -⟩ := h.applyAll levels
  have hbatch : b.applyAll b.batch = some k := by
    rw [← hk]
    exact b.applyAll_congr fun isAsk => by rw [only_batch, h.pending]
  exact ⟨k.cancelBatch, by rw [commitBatch_eq h.pending_le, hbatch]; rfl, ⟨k, hk, rfl, rfl⟩,
    hHolds.cancelBatch, rfl⟩

end RithmicOrderBook

/-! ## The batch that is being received -/

/-- A book with the levels of the batch that is open, in arrival order. -/
structure Traced (P Q : Type) where
  book : RithmicOrderBook P Q
  openBatch : Option (List (Bool × Level P Q))

namespace Traced

/-- The pending arrays hold the batch that is open. -/
structure Tracks (s : Traced P Q) : Prop where
  holds : s.book.Holds (s.openBatch.getD [])
  active : s.book.batchActive = s.openBatch.isSome

theorem Tracks.openBatch_eq_none {s : Traced P Q} (hs : s.Tracks) (h : s.book.batchActive = false) :
    s.openBatch = none := by
  rw [hs.active, Option.isSome_eq_false_iff] at h
  exact Option.isNone_iff_eq_none.mp h

theorem Tracks.idle {t : Traced P Q} (ht : t.Tracks) (h : t.book.batchActive = false) :
    t.book.pendingBids.count = 0 ∧ t.book.pendingAsks.count = 0 := by
  have hholds := ht.holds
  rw [ht.openBatch_eq_none h] at hholds
  exact ⟨hholds.pending_count false, hholds.pending_count true⟩

/-- `if (!batch_active()) BeginBatch()` leaves the levels of the open batch pending. -/
theorem Tracks.activate {s : Traced P Q} (hs : s.Tracks) :
    ∃ u, (if !s.book.batchActive then s.book.beginBatch else s.book) = u ∧
      u.Holds (s.openBatch.getD []) ∧ u.bids = s.book.bids ∧ u.asks = s.book.asks ∧
      u.batchActive = true := by
  cases hactive : s.book.batchActive with
  | true => exact ⟨s.book, rfl, hs.holds, rfl, rfl, hactive⟩
  | false => exact ⟨s.book.beginBatch, rfl, hs.openBatch_eq_none hactive ▸ hs.holds.beginBatch,
      rfl, rfl, rfl⟩

end Traced

variable [LinearOrder P] [LinearOrder Q] [Zero Q]

/-- The level a quote adds to a batch, if it has a price. -/
def QuoteInfo.carried (sc : SizeCast Q) (isAsk : Bool) (info : QuoteInfo P) :
    List (Bool × Level P Q) :=
  if info.bPriceFlag then [(isAsk, info.level sc)] else []

omit [LinearOrder P] in
theorem RithmicOrderBook.Holds.bufferQuote {sc : SizeCast Q} {isAsk : Bool} {info : QuoteInfo P}
    {b : RithmicOrderBook P Q} {levels : List (Bool × Level P Q)} (h : b.Holds levels)
    (hfit : (only isAsk (levels ++ info.carried sc isAsk)).length ≤ kMaxOrderbookLevels) :
    ∃ b', b.bufferQuote sc isAsk info = some b' ∧ b'.Holds (levels ++ info.carried sc isAsk) ∧
      SameBook b b' := by
  unfold QuoteInfo.carried RithmicOrderBook.bufferQuote at *
  split
  next hflag =>
    rw [if_pos hflag] at hfit
    exact h.bufferLevel hfit
  next => exact ⟨b, rfl, by rwa [List.append_nil], rfl, rfl, rfl⟩

namespace QuoteCallback

/-- The update type of a quote, `none` for an `EndQuote`. -/
def updateType : QuoteCallback P → Option UpdateType
  | .askQuote info | .bidQuote info => some (.ofCode info.iUpdateType)
  | .endQuote => none

def carried (sc : SizeCast Q) : QuoteCallback P → List (Bool × Level P Q)
  | .askQuote info => info.carried sc true
  | .bidQuote info => info.carried sc false
  | .endQuote => []

end QuoteCallback

namespace Traced

open RithmicOrderBook

/-- The levels of the batch once a callback has added its own: those since the last `BEGIN`, or
since the first `MIDDLE` or `END` without one. -/
def collected (sc : SizeCast Q) (s : Traced P Q) (c : QuoteCallback P) :
    List (Bool × Level P Q) :=
  match c.updateType with
  | some .begin => c.carried sc
  | some .middle | some .end_ => s.openBatch.getD [] ++ c.carried sc
  | _ => s.openBatch.getD []

def nextBatch (sc : SizeCast Q) (s : Traced P Q) (c : QuoteCallback P) :
    Option (List (Bool × Level P Q)) :=
  match c.updateType with
  | some .begin | some .middle => some (s.collected sc c)
  | some .end_ | some .clear | none => none
  | some .solo | some .other => s.openBatch

def machine [Zero P] (sc : SizeCast Q) : Machine (Traced P Q) (QuoteCallback P) where
  init := ⟨.init, none⟩
  step s c := (quoteCallback sc s.book c).map fun b => ⟨b, s.nextBatch sc c⟩

/-- A batch is completed: by an `END`, or by an `EndQuote` while it is active. -/
def Completes (s : Traced P Q) (c : QuoteCallback P) : Prop :=
  c.updateType = some .end_ ∨ c.updateType = none ∧ s.book.batchActive = true

/-- The batch has room for the levels of each side. -/
def Fits (sc : SizeCast Q) (s : Traced P Q) (c : QuoteCallback P) : Prop :=
  ∀ isAsk, (only isAsk (s.collected sc c)).length ≤ kMaxOrderbookLevels

/-- How a callback may change the book: by applying exactly the levels of the batch it completes,
the level of a `SOLO`, or by a `CLEAR`. -/
structure Atomic (sc : SizeCast Q) (s : Traced P Q) (c : QuoteCallback P) (t : Traced P Q) :
    Prop where
  completed : s.Completes c → AppliedTo s.book (s.collected sc c) t.book
  solo : c.updateType = some .solo → AppliedTo s.book (c.carried sc) t.book
  cleared : c.updateType = some .clear → t.book.bids.toList = [] ∧ t.book.asks.toList = []
  unchanged : ¬s.Completes c → c.updateType ≠ some .solo → c.updateType ≠ some .clear →
    t.book.bids = s.book.bids ∧ t.book.asks = s.book.asks
  idle : t.book.batchActive = false →
    t.book.pendingBids.count = 0 ∧ t.book.pendingAsks.count = 0

variable {sc : SizeCast Q} {s t : Traced P Q} {c : QuoteCallback P}

/-- `c` is a quote of the given side and update type. -/
structure IsQuote (sc : SizeCast Q) (c : QuoteCallback P) (isAsk : Bool) (info : QuoteInfo P)
    (type : UpdateType) : Prop where
  updateType : c.updateType = some type
  carried : c.carried sc = info.carried sc isAsk

/-- The state after a callback that leaves the book `b`. -/
def after (sc : SizeCast Q) (s : Traced P Q) (c : QuoteCallback P) (b : RithmicOrderBook P Q) :
    Traced P Q := ⟨b, s.nextBatch sc c⟩

theorem Atomic.of_unchanged (ht : t.Tracks) (hc : ¬s.Completes c)
    (hsolo : c.updateType ≠ some .solo) (hclear : c.updateType ≠ some .clear)
    (hbids : t.book.bids = s.book.bids) (hasks : t.book.asks = s.book.asks) : Atomic sc s c t where
  completed h := absurd h hc
  solo h := absurd h hsolo
  cleared h := absurd h hclear
  unchanged _ _ _ := ⟨hbids, hasks⟩
  idle := ht.idle

theorem Atomic.of_completed (ht : t.Tracks) (hc : s.Completes c)
    (h : AppliedTo s.book (s.collected sc c) t.book) : Atomic sc s c t where
  completed _ := h
  solo h := by rcases hc with h' | ⟨h', -⟩ <;> cases h.symm.trans h'
  cleared h := by rcases hc with h' | ⟨h', -⟩ <;> cases h.symm.trans h'
  unchanged h := absurd hc h
  idle := ht.idle

section
variable {isAsk : Bool} {info : QuoteInfo P} {type : UpdateType}

omit [LinearOrder P] in
theorem IsQuote.ne (hc : IsQuote sc c isAsk info type) {type' : UpdateType} (h : type ≠ type') :
    c.updateType ≠ some type' := by
  rw [hc.updateType]
  exact fun h' => h (Option.some.inj h')

omit [LinearOrder P] in
theorem IsQuote.not_completes (hc : IsQuote sc c isAsk info type) (h : type ≠ .end_) :
    ¬s.Completes c := by
  rintro (h' | ⟨h', -⟩)
  · exact hc.ne h h'
  · cases hc.updateType.symm.trans h'

theorem applyAll_carried (sc : SizeCast Q) (b : RithmicOrderBook P Q) (isAsk : Bool)
    (info : QuoteInfo P) :
    b.applyAll (info.carried sc isAsk) =
      if info.bPriceFlag then b.applyLevel info.dPrice (info.level sc).quantity isAsk
      else some b := by
  unfold QuoteInfo.carried
  split
  · rw [applyAll_cons]
    exact Option.bind_fun_some _
  · rfl

theorem Tracks.solo (hs : s.Tracks) (hc : IsQuote sc c isAsk info .solo) :
    ∃ b, s.book.applyAll (info.carried sc isAsk) = some b ∧ (s.after sc c b).Tracks ∧
      Atomic sc s c (s.after sc c b) := by
  obtain ⟨b, hb, hHolds, hactive⟩ := hs.holds.applyAll (info.carried sc isAsk)
  have hnext : s.after sc c b = ⟨b, s.openBatch⟩ := by simp only [after, nextBatch, hc.updateType]
  have ht : (s.after sc c b).Tracks := hnext ▸ ⟨hHolds, hactive.trans hs.active⟩
  refine ⟨b, hb, ht, ?_⟩
  exact {
    completed := fun h => absurd h (hc.not_completes nofun)
    solo := fun _ => ⟨b, hc.carried ▸ hb, rfl, rfl⟩
    cleared := fun h => absurd h (hc.ne nofun)
    unchanged := fun _ h => absurd hc.updateType h
    idle := ht.idle }

theorem Tracks.begin (hs : s.Tracks) (hc : IsQuote sc c isAsk info .begin) (hfit : s.Fits sc c) :
    ∃ b, s.book.beginBatch.bufferQuote sc isAsk info = some b ∧ (s.after sc c b).Tracks ∧
      Atomic sc s c (s.after sc c b) := by
  have hcol : s.collected sc c = [] ++ info.carried sc isAsk := by
    simp only [collected, hc.updateType, hc.carried, List.nil_append]
  obtain ⟨b, hb, hHolds, hsame⟩ := hs.holds.beginBatch.bufferQuote (hcol ▸ hfit isAsk)
  have hnext : s.after sc c b = ⟨b, some ([] ++ info.carried sc isAsk)⟩ := by
    simp only [after, nextBatch, hc.updateType, hcol]
  have ht : (s.after sc c b).Tracks := hnext ▸ ⟨hHolds, hsame.batchActive⟩
  exact ⟨b, hb, ht, .of_unchanged ht (hc.not_completes nofun) (hc.ne nofun) (hc.ne nofun)
    hsame.bids hsame.asks⟩

theorem Tracks.middle (hs : s.Tracks) (hc : IsQuote sc c isAsk info .middle)
    (hfit : s.Fits sc c) :
    ∃ b, (if !s.book.batchActive then s.book.beginBatch else s.book).bufferQuote sc isAsk info =
        some b ∧ (s.after sc c b).Tracks ∧ Atomic sc s c (s.after sc c b) := by
  have hcol : s.collected sc c = s.openBatch.getD [] ++ info.carried sc isAsk := by
    simp only [collected, hc.updateType, hc.carried]
  obtain ⟨u, hu, hHolds, hbids, hasks, hactive⟩ := hs.activate
  obtain ⟨b, hb, hHolds, hsame⟩ := hHolds.bufferQuote (hcol ▸ hfit isAsk)
  have hnext : s.after sc c b = ⟨b, some (s.openBatch.getD [] ++ info.carried sc isAsk)⟩ := by
    simp only [after, nextBatch, hc.updateType, hcol]
  have ht : (s.after sc c b).Tracks := hnext ▸ ⟨hHolds, hsame.batchActive.trans hactive⟩
  exact ⟨b, hu ▸ hb, ht, .of_unchanged ht (hc.not_completes nofun) (hc.ne nofun) (hc.ne nofun)
    (hsame.bids.trans hbids) (hsame.asks.trans hasks)⟩

theorem Tracks.endUpdate (hs : s.Tracks) (hc : IsQuote sc c isAsk info .end_) (hfit : s.Fits sc c) :
    ∃ b, (s.book.bufferQuote sc isAsk info).bind commitBatch = some b ∧
      (s.after sc c b).Tracks ∧ Atomic sc s c (s.after sc c b) := by
  have hcol : s.collected sc c = s.openBatch.getD [] ++ info.carried sc isAsk := by
    simp only [collected, hc.updateType, hc.carried]
  obtain ⟨u, hu, hHolds, hsame⟩ := hs.holds.bufferQuote (hcol ▸ hfit isAsk)
  obtain ⟨b, hb, happ, hHolds, hinactive⟩ := hHolds.commitBatch
  have hnext : s.after sc c b = ⟨b, none⟩ := by simp only [after, nextBatch, hc.updateType]
  have ht : (s.after sc c b).Tracks := hnext ▸ ⟨hHolds, hinactive⟩
  refine ⟨b, by rw [hu]; exact hb, ht, .of_completed ht (.inl hc.updateType) ?_⟩
  exact hcol ▸ happ.of_sameBook hsame

theorem Tracks.clear (hc : IsQuote sc c isAsk info .clear) :
    (s.after sc c s.book.clear).Tracks ∧ Atomic sc s c (s.after sc c s.book.clear) := by
  have hnext : s.after sc c s.book.clear = ⟨s.book.clear, none⟩ := by
    simp only [after, nextBatch, hc.updateType]
  have ht : (s.after sc c s.book.clear).Tracks := hnext ▸ ⟨holds_clear s.book, rfl⟩
  refine ⟨ht, ?_⟩
  exact {
    completed := fun h => absurd h (hc.not_completes nofun)
    solo := fun h => absurd h (hc.ne nofun)
    cleared := fun _ => ⟨rfl, rfl⟩
    unchanged := fun _ _ h => absurd hc.updateType h
    idle := ht.idle }

theorem Tracks.other (hs : s.Tracks) (hc : IsQuote sc c isAsk info .other) :
    (s.after sc c s.book).Tracks ∧ Atomic sc s c (s.after sc c s.book) := by
  have hnext : s.after sc c s.book = s := by simp only [after, nextBatch, hc.updateType]
  have ht : (s.after sc c s.book).Tracks := by rwa [hnext]
  exact ⟨ht, .of_unchanged ht (hc.not_completes nofun) (hc.ne nofun) (hc.ne nofun) rfl rfl⟩

/-- One quote, on either side. -/
theorem Tracks.quote (hs : s.Tracks)
    (hc : IsQuote sc c isAsk info (.ofCode info.iUpdateType)) (hfit : s.Fits sc c) :
    ∃ b, s.book.quote sc isAsk info = some b ∧ (s.after sc c b).Tracks ∧
      Atomic sc s c (s.after sc c b) := by
  unfold RithmicOrderBook.quote
  cases hcode : UpdateType.ofCode info.iUpdateType with rw [hcode] at hc
  | solo => exact applyAll_carried sc s.book isAsk info ▸ hs.solo hc
  | begin =>
    have hrestart : (if s.book.batchActive then s.book.cancelBatch else s.book).beginBatch =
        s.book.beginBatch := by split <;> rfl
    exact hrestart.symm ▸ hs.begin hc hfit
  | middle => exact hs.middle hc hfit
  | end_ => exact hs.endUpdate hc hfit
  | clear => exact ⟨_, rfl, Tracks.clear hc⟩
  | other => exact ⟨_, rfl, hs.other hc⟩

end

theorem Tracks.endQuote (hs : s.Tracks) :
    ∃ b, s.book.endQuote = some b ∧ (s.after sc .endQuote b).Tracks ∧
      Atomic sc s .endQuote (s.after sc .endQuote b) := by
  unfold RithmicOrderBook.endQuote
  cases hactive : s.book.batchActive with
  | true =>
    obtain ⟨b, hb, happ, hHolds, hinactive⟩ := hs.holds.commitBatch
    have ht : (s.after sc .endQuote b).Tracks := ⟨hHolds, hinactive⟩
    exact ⟨b, hb, ht, .of_completed ht (.inr ⟨rfl, hactive⟩) happ⟩
  | false =>
    have hHolds := hs.holds
    rw [hs.openBatch_eq_none hactive] at hHolds
    have ht : (s.after sc .endQuote s.book).Tracks := ⟨hHolds, hactive⟩
    refine ⟨s.book, rfl, ht, .of_unchanged ht ?_ nofun nofun rfl rfl⟩
    rintro (h | ⟨-, h⟩)
    · cases h
    · cases hactive.symm.trans h

theorem Tracks.step [Zero P] (hs : s.Tracks) (hfit : s.Fits sc c) :
    ∃ t, (machine sc).step s c = some t ∧ t.Tracks ∧ Atomic sc s c t := by
  have hcall : ∃ b, quoteCallback sc s.book c = some b ∧ (s.after sc c b).Tracks ∧
      Atomic sc s c (s.after sc c b) := by
    cases c with
    | askQuote info =>
      have hc : IsQuote sc (.askQuote info) true info (.ofCode info.iUpdateType) := ⟨rfl, rfl⟩
      exact hs.quote hc hfit
    | bidQuote info =>
      have hc : IsQuote sc (.bidQuote info) false info (.ofCode info.iUpdateType) := ⟨rfl, rfl⟩
      exact hs.quote hc hfit
    | endQuote => exact hs.endQuote
  obtain ⟨b, hb, ht, hatomic⟩ := hcall
  exact ⟨s.after sc c b, by simp only [machine, hb, Option.map_some, after], ht, hatomic⟩

/-- In every run of quote callbacks that buffers no more levels in a batch than the arrays hold, the
next callback is atomic. -/
theorem exec_atomic [Zero P] {cs : List (QuoteCallback P)}
    (h : (machine sc).Along (Fits sc) (machine sc).init (cs ++ [c])) :
    ∃ s t, (machine sc).exec (machine sc).init cs = some s ∧ (machine sc).step s c = some t ∧
      Atomic sc s c t := by
  rw [(machine sc).along_append] at h
  have hinit : Tracks (machine (P := P) sc).init :=
    ⟨⟨fun isAsk => by cases isAsk <;> exact Nat.zero_le _,
      fun isAsk => by cases isAsk <;> exact Nat.zero_le _,
      fun isAsk => by cases isAsk <;> rfl⟩, rfl⟩
  obtain ⟨s, hexec, hs⟩ := (machine sc).exec_total (C := Fits sc) (I := Tracks)
    (fun s c hs hfit => (hs.step hfit).imp fun _ ht => ⟨ht.1, ht.2.1⟩) hinit h.1
  obtain ⟨t, hstep, -, hatomic⟩ := hs.step (h.2 s hexec).1
  exact ⟨s, t, hexec, hstep, hatomic⟩

instance (sc : SizeCast Q) (s : Traced P Q) (c : QuoteCallback P) :
    Decidable (s.Fits sc c) :=
  inferInstanceAs (Decidable (∀ isAsk, (only isAsk (s.collected sc c)).length ≤ _))

/-- A bid with a `BEGIN`, then an ask with a `MIDDLE`. -/
def mixedQuotes : List (QuoteCallback Int) :=
  [.bidQuote ⟨2, true, 10, true, 5⟩, .askQuote ⟨3, true, 12, true, 3⟩]

theorem exec_mixedQuotes_atomic :
    ∃ s t, (machine intCast).exec (machine intCast).init mixedQuotes = some s ∧
      (machine intCast).step s (.askQuote ⟨4, true, 13, true, 4⟩) = some t ∧
      Atomic intCast s (.askQuote ⟨4, true, 13, true, 4⟩) t :=
  exec_atomic (by decide)

end Traced
end Sqc
