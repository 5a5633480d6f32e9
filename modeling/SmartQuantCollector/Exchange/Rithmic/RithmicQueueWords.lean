import SmartQuantCollector.Exchange.Rithmic.RithmicQueueInvariant

/-! # The 64-bit words of `MpscRithmicQueue`

`MpscRithmicQueue.machine` counts positions and sequences in natural numbers. Here is the queue
with the words of the source, `uint64_t` and `size_t`, which wrap: `Words.machine`. Both run the
same actions, and `State.words` gives the words of a state.

The two only part where a load compares words that are equal while the numbers are not. In every
run the numbers compared lie between `freed` and the larger of `writePos` and `freed + capacity`
(`Placed`, which unlike `Inv` needs no condition on drops), so the words tell them apart as long as
fewer than `2 ^ 64` reserved positions wait for the consumer, however often the counters have
wrapped by then (`exec_words`). -/

namespace Sqc
open Concurrency

namespace MpscRithmicQueue

namespace Words

structure Slot (T : Type*) where
  sequence : UInt64
  data : T

/-- Where a producer thread stands; the operations are those of `MpscRithmicQueue.Producer`. -/
inductive Producer (T : Type*) where
  | idle
  | fastLoad (event : T) (pos : UInt64)
  | spinLoad (event : T) (pos : UInt64) (spin : Nat)
  | pushLoad (event : T) (pos : UInt64)
  | write (event : T) (pos : UInt64)
  | publish (event : T) (pos : UInt64)
  | dropWrite (pos : UInt64)
  | dropPublish (pos : UInt64)
  | dropCount

/-- Where the consumer stands in `TryPop`. -/
inductive Consumer (T : Type*) where
  | idle
  | loadSequence (pos : UInt64)
  | readData (pos : UInt64)
  | storeReadPos (pos : UInt64) (out : T)
  | storeSequence (pos : UInt64) (out : T)

structure State (ι T : Type*) where
  writePos : UInt64
  droppedCount : UInt64
  slots : Nat → Slot T
  readPos : UInt64
  producers : ι → Producer T
  consumer : Consumer T
  popped : List T

variable {ι T : Type*} [DecidableEq ι] [Inhabited T]

namespace State

variable (c : Capacity) (s : State ι T)

/-- `slots_[pos & kMask]`. -/
def slot (pos : UInt64) : Slot T := s.slots (pos &&& (c.word - 1)).toNat

def setSlot (pos : UInt64) (x : Slot T) : State ι T :=
  { s with slots := Function.update s.slots (pos &&& (c.word - 1)).toNat x }

def setProducer (i : ι) (p : Producer T) : State ι T :=
  { s with producers := Function.update s.producers i p }

def free (pos : UInt64) : Bool := (s.slot c pos).sequence == pos

def writeData (pos : UInt64) (x : T) : State ι T := s.setSlot c pos { s.slot c pos with data := x }

def storeSeq (pos q : UInt64) : State ι T := s.setSlot c pos { s.slot c pos with sequence := q }

def reserve (i : ι) (p : UInt64 → Producer T) : State ι T :=
  { s with writePos := s.writePos + 1, producers := Function.update s.producers i (p s.writePos) }

end State

def produce (c : Capacity) (s : State ι T) (i : ι) : Option (State ι T) :=
  match s.producers i with
  | .idle => none
  | .fastLoad event pos =>
    if s.free c pos then some (s.setProducer i (.write event pos))
    else some (s.setProducer i (.spinLoad event pos 0))
  | .spinLoad event pos spin =>
    if s.free c pos then some (s.setProducer i (.write event pos))
    else if spin + 1 > kMaxSpin then some (s.setProducer i (.dropWrite pos))
    else some (s.setProducer i (.spinLoad event pos (spin + 1)))
  | .pushLoad event pos =>
    if s.free c pos then some (s.setProducer i (.write event pos)) else some s
  | .write event pos => some ((s.writeData c pos event).setProducer i (.publish event pos))
  | .publish _ pos => some ((s.storeSeq c pos (pos + 1)).setProducer i .idle)
  | .dropWrite pos => some ((s.writeData c pos default).setProducer i (.dropPublish pos))
  | .dropPublish pos => some ((s.storeSeq c pos (pos + 1)).setProducer i .dropCount)
  | .dropCount => some ({ s with droppedCount := s.droppedCount + 1 }.setProducer i .idle)

def consume (c : Capacity) (s : State ι T) : State ι T :=
  match s.consumer with
  | .idle => { s with consumer := .loadSequence s.readPos }
  | .loadSequence pos =>
    if (s.slot c pos).sequence ≠ pos + 1 then { s with consumer := .idle }
    else { s with consumer := .readData pos }
  | .readData pos => { s with consumer := .storeReadPos pos (s.slot c pos).data }
  | .storeReadPos pos out => { s with readPos := pos + 1, consumer := .storeSequence pos out }
  | .storeSequence pos out =>
    { s.storeSeq c pos (pos + c.word) with consumer := .idle, popped := s.popped ++ [out] }

def step (c : Capacity) (s : State ι T) : Action ι T → Option (State ι T)
  | .tryPush i event =>
    match s.producers i with
    | .idle => some (s.reserve i (.fastLoad event))
    | _ => none
  | .push i event =>
    match s.producers i with
    | .idle => some (s.reserve i (.pushLoad event))
    | _ => none
  | .produce i => produce c s i
  | .consume => some (consume c s)

def init : State ι T where
  writePos := 0
  droppedCount := 0
  slots i := ⟨.ofNat i, default⟩
  readPos := 0
  producers _ := .idle
  consumer := .idle
  popped := []

def machine (ι T : Type*) [DecidableEq ι] [Inhabited T] (c : Capacity) :
    Machine (State ι T) (Action ι T) where
  init := init
  step := step c

end Words

/-! ## The words of a state -/

def Slot.words {T : Type*} (x : Slot T) : Words.Slot T := ⟨.ofNat x.sequence, x.data⟩

def Producer.words {T : Type*} : Producer T → Words.Producer T
  | .idle => .idle
  | .fastLoad event pos => .fastLoad event (.ofNat pos)
  | .spinLoad event pos spin => .spinLoad event (.ofNat pos) spin
  | .pushLoad event pos => .pushLoad event (.ofNat pos)
  | .write event pos => .write event (.ofNat pos)
  | .publish event pos => .publish event (.ofNat pos)
  | .dropWrite pos => .dropWrite (.ofNat pos)
  | .dropPublish pos => .dropPublish (.ofNat pos)
  | .dropCount => .dropCount

def Consumer.words {T : Type*} : Consumer T → Words.Consumer T
  | .idle => .idle
  | .loadSequence pos => .loadSequence (.ofNat pos)
  | .readData pos => .readData (.ofNat pos)
  | .storeReadPos pos out => .storeReadPos (.ofNat pos) out
  | .storeSequence pos out => .storeSequence (.ofNat pos) out

/-- The recorded outcomes have no counterpart in the queue. -/
def State.words {ι T : Type*} (s : State ι T) : Words.State ι T where
  writePos := .ofNat s.writePos
  droppedCount := .ofNat s.droppedCount
  slots i := (s.slots i).words
  readPos := .ofNat s.readPos
  producers i := (s.producers i).words
  consumer := s.consumer.words
  popped := s.popped

variable {ι T : Type*} {c : Capacity} {s t : State ι T}

theorem State.words_slot (p : Nat) : s.words.slot c (.ofNat p) = (s.slot c p).words := by
  rw [Words.State.slot, State.slot, word_and_mask, and_mask]
  rfl

theorem State.words_setSlot (p : Nat) (x : Slot T) :
    (s.setSlot c p x).words = s.words.setSlot c (.ofNat p) x.words := by
  rw [Words.State.setSlot, State.setSlot, word_and_mask, and_mask]
  simp only [State.words, Words.State.mk.injEq, true_and, and_true]
  exact funext fun j => Function.apply_update (fun _ => Slot.words) s.slots _ x j

theorem State.words_writeData (p : Nat) (x : T) :
    (s.writeData c p x).words = s.words.writeData c (.ofNat p) x := by
  rw [State.writeData, Words.State.writeData, State.words_setSlot, State.words_slot]
  rfl

theorem State.words_storeSeq (p n : Nat) :
    (s.storeSeq c p n).words = s.words.storeSeq c (.ofNat p) (.ofNat n) := by
  rw [State.storeSeq, Words.State.storeSeq, State.words_setSlot, State.words_slot]
  rfl

section
variable [DecidableEq ι]

theorem State.words_setProducer (i : ι) (p : Producer T) :
    (s.setProducer i p).words = s.words.setProducer i p.words := by
  simp only [State.words, State.setProducer, Words.State.setProducer, Words.State.mk.injEq,
    true_and, and_true]
  exact funext fun j => Function.apply_update (fun _ => Producer.words) s.producers i p j

theorem State.words_reserve {i : ι} {p : Nat → Producer T} {q : UInt64 → Words.Producer T}
    (h : ∀ pos, (p pos).words = q (.ofNat pos)) :
    (s.reserve i p).words = s.words.reserve i q := by
  have := State.words_setProducer (s := { s with writePos := s.writePos + 1 }) i (p s.writePos)
  rw [h] at this
  simpa only [State.reserve, State.setProducer, Words.State.reserve, Words.State.setProducer,
    State.words, ← word_succ] using this

end

/-! ## Where the compared numbers lie -/

/-- `p` has been reserved, and no push holds it any more. -/
def State.Released (s : State ι T) (p : Nat) : Prop :=
  p < s.writePos ∧ ∀ i, (s.producers i).position ≠ some p

/-- What a pop in progress knows about its position. -/
def ConsumerPlaced (s : State ι T) : Consumer T → Prop
  | .idle => True
  | .loadSequence pos => pos = s.readPos
  | .readData pos | .storeReadPos pos _ => pos = s.readPos ∧ s.Released pos
  | .storeSequence pos _ => s.readPos = pos + 1 ∧ s.Released pos

/-- Where the sequences and the positions of a state lie. A slot holds a sequence that some push
published, at most `writePos`, or one that the constructor or the consumer left there for the next
push into that slot. -/
structure Placed (c : Capacity) (s : State ι T) : Prop where
  freed_le : s.freed ≤ s.writePos
  le_sequence : ∀ {p}, s.freed ≤ p → p < s.freed + c.val → p ≤ (s.slot c p).sequence
  sequence_le : ∀ p, (s.slot c p).sequence ≤ s.writePos ∨
    (s.slot c p).sequence % c.val = p % c.val ∧ (s.slot c p).sequence ≤ s.freed + c.val
  held : ∀ {i p}, (s.producers i).position = some p → s.freed ≤ p ∧ p < s.writePos
  held_inj : ∀ {i j p}, (s.producers i).position = some p → (s.producers j).position = some p →
    i = j
  unpublished : ∀ {i p}, (s.producers i).position = some p → (s.slot c p).sequence ≠ p + 1
  consumer : ConsumerPlaced s s.consumer

theorem State.Released.mono {p : Nat} (h : s.Released p) (hw : s.writePos ≤ t.writePos)
    (ht : ∀ {i q}, (t.producers i).position = some q → (s.producers i).position = some q ∨
      s.writePos ≤ q) : t.Released p := by
  refine ⟨Nat.lt_of_lt_of_le h.1 hw, fun i hi => ?_⟩
  rcases ht hi with hp | hp
  · exact h.2 i hp
  · exact absurd h.1 (Nat.not_lt.mpr hp)

/-- A step of a producer leaves the consumer where it was. -/
theorem ConsumerPlaced.mono {k : Consumer T} (h : ConsumerPlaced s k) (hr : t.readPos = s.readPos)
    (hw : s.writePos ≤ t.writePos)
    (ht : ∀ {i q}, (t.producers i).position = some q → (s.producers i).position = some q ∨
      s.writePos ≤ q) : ConsumerPlaced t k := by
  cases k with
  | idle => trivial
  | loadSequence pos => exact h.trans hr.symm
  | readData pos | storeReadPos pos out => exact ⟨h.1.trans hr.symm, h.2.mono hw ht⟩
  | storeSequence pos out => exact ⟨hr.trans h.1, h.2.mono hw ht⟩

namespace Placed

theorem init [Inhabited T] : Placed c (init : State ι T) where
  freed_le := Nat.le_refl _
  le_sequence := by
    intro p _ hp
    have hlt : p < c.val := by simpa [MpscRithmicQueue.init, State.freed] using hp
    simp [MpscRithmicQueue.init, State.slot, and_mask, Nat.mod_eq_of_lt hlt]
  sequence_le p := by
    right
    have := Nat.mod_lt p c.val_pos
    simp [MpscRithmicQueue.init, State.slot, State.freed, and_mask, this.le]
  held := by intro i p h; cases h
  held_inj := by intro i j p h; cases h
  unpublished := by intro i p h; cases h
  consumer := trivial

/-- Steps that move no counter and change no sequence. -/
theorem keep (h : Placed c s) (hw : t.writePos = s.writePos) (hf : t.freed = s.freed)
    (hs : ∀ p, (t.slot c p).sequence = (s.slot c p).sequence)
    (hp : ∀ i, (t.producers i).position = (s.producers i).position)
    (hk : ConsumerPlaced t t.consumer) : Placed c t where
  freed_le := by rw [hf, hw]; exact h.freed_le
  le_sequence := by rw [hf]; intro p; rw [hs]; exact h.le_sequence
  sequence_le p := by rw [hf, hw, hs]; exact h.sequence_le p
  held := by intro i p; rw [hf, hw, hp]; exact h.held
  held_inj := by intro i j p; rw [hp, hp]; exact h.held_inj
  unpublished := by intro i p; rw [hs, hp]; exact h.unpublished
  consumer := hk

theorem writeData (h : Placed c s) (p : Nat) (x : T) : Placed c (s.writeData c p x) :=
  h.keep rfl rfl (fun _ => State.sequence_writeData) (fun _ => rfl)
    (h.consumer.mono rfl (Nat.le_refl _) .inl)

theorem record (h : Placed c s) (p : Nat) (o : Outcome T) : Placed c (s.record p o) :=
  h.keep rfl rfl (fun _ => rfl) (fun _ => rfl) h.consumer

/-- A sequence `p + 1` in the slot of `p` is one that the push at `p` published. -/
theorem released (h : Placed c s) (hc : 0 < c.exp) {p : Nat}
    (hp : (s.slot c p).sequence = p + 1) : s.Released p := by
  refine ⟨?_, fun i hi => h.unpublished hi hp⟩
  rcases h.sequence_le p with hle | ⟨hmod, -⟩
  · omega
  · rw [hp] at hmod
    exact absurd hmod (Capacity.succ_mod_ne hc p)

/-- The consumer hands the slot of `pos` to the push `pos + capacity`. -/
theorem release (h : Placed c s) (hc : 0 < c.exp) {pos : Nat} {out : T}
    (hk : s.consumer = .storeSequence pos out) :
    Placed c { s.storeSeq c pos (pos + c.val) with
      consumer := .idle, popped := s.popped ++ [out] } := by
  obtain ⟨hread, hlt, hfree⟩ : s.readPos = pos + 1 ∧ s.Released pos := by
    have := h.consumer
    rwa [hk] at this
  have hf : s.freed = pos := by rw [State.freed, hk]
  have hseq (q : Nat) : ((s.storeSeq c pos (pos + c.val)).slot c q).sequence =
      if q % c.val = pos % c.val then pos + c.val else (s.slot c q).sequence :=
    State.sequence_storeSeq
  have hmod : (pos + c.val) % c.val = pos % c.val := Nat.add_mod_right ..
  have hf' : State.freed { s.storeSeq c pos (pos + c.val) with
      consumer := .idle, popped := s.popped ++ [out] } = pos + 1 := hread
  refine ⟨hf' ▸ hlt, fun {q} hq hq' => ?_, fun q => ?_, fun {i q} hi => ?_, h.held_inj,
    fun {i q} hi => ?_, trivial⟩
  · rw [hf'] at hq hq'
    refine Nat.le_trans ?_ (Nat.le_of_eq (hseq q).symm)
    split
    next => omega
    next hne =>
      have hq'' : q ≠ pos + c.val := fun heq => hne (heq ▸ hmod)
      exact h.le_sequence (by omega) (by omega)
  · rw [hf']
    change ((s.storeSeq c pos (pos + c.val)).slot c q).sequence ≤ _ ∨
      ((s.storeSeq c pos (pos + c.val)).slot c q).sequence % _ = _ ∧
        ((s.storeSeq c pos (pos + c.val)).slot c q).sequence ≤ _
    rw [hseq]
    split
    next hq => exact .inr ⟨hmod.trans hq.symm, by omega⟩
    next =>
      refine (h.sequence_le q).imp_right fun hle => ⟨hle.1, ?_⟩
      have := hle.2
      omega
  · have hne : q ≠ pos := fun heq => hfree i (heq ▸ hi)
    have := h.held hi
    rw [hf']
    exact ⟨by omega, this.2⟩
  · change ((s.storeSeq c pos (pos + c.val)).slot c q).sequence ≠ q + 1
    rw [hseq]
    split
    next hq =>
      intro heq
      rw [heq] at hmod
      exact Capacity.succ_mod_ne hc q (hmod.trans hq.symm)
    next => exact h.unpublished hi

variable [DecidableEq ι]

theorem setProducer (h : Placed c s) {i : ι} {p : Producer T}
    (hp : p.position = (s.producers i).position) : Placed c (s.setProducer i p) := by
  have hpos (j : ι) : ((s.setProducer i p).producers j).position = (s.producers j).position := by
    simp only [State.setProducer, Function.update_apply]
    split
    next hj => rw [hj, hp]
    next => rfl
  refine h.keep rfl rfl (fun _ => rfl) hpos (h.consumer.mono rfl (Nat.le_refl _) fun hq => ?_)
  exact .inl (hpos _ ▸ hq)

theorem reserve (h : Placed c s) (hc : 0 < c.exp) (i : ι) {p : Nat → Producer T}
    (hp : ∀ pos, (p pos).position = some pos) : Placed c (s.reserve i p) := by
  have hpos {j : ι} {q : Nat} (hq : ((s.reserve i p).producers j).position = some q) :
      (s.producers j).position = some q ∨ j = i ∧ q = s.writePos := by
    simp only [State.reserve, Function.update_apply] at hq
    split at hq
    next hj => exact .inr ⟨hj, by simpa [hp, eq_comm] using hq⟩
    next => exact .inl hq
  refine ⟨Nat.le_succ_of_le h.freed_le, h.le_sequence, fun q => ?_, fun hq => ?_, fun hq hq' => ?_,
    fun hq => ?_, h.consumer.mono rfl (Nat.le_succ _) fun hq => ?_⟩
  · exact (h.sequence_le q).imp_left Nat.le_succ_of_le
  · rcases hpos hq with hq | ⟨-, rfl⟩
    · exact ⟨(h.held hq).1, Nat.lt_succ_of_lt (h.held hq).2⟩
    · exact ⟨h.freed_le, Nat.lt_succ_self _⟩
  · -- the reserved position is above all positions held before
    rcases hpos hq with hj | ⟨rfl, hw⟩ <;> rcases hpos hq' with hj' | ⟨rfl, hw'⟩
    · exact h.held_inj hj hj'
    · exact absurd (h.held hj).2 (by omega)
    · exact absurd (h.held hj').2 (by omega)
    · rfl
  · rcases hpos hq with hq | ⟨-, rfl⟩
    · exact h.unpublished hq
    · exact fun hpub => Nat.lt_irrefl _ (h.released hc hpub).1
  · exact (hpos hq).imp_right fun hq => Nat.le_of_eq hq.2.symm

/-- The store of `pos + 1` by the push that holds `pos`, which lets go of it. -/
theorem publish (h : Placed c s) {i : ι} {pos : Nat} (hi : (s.producers i).position = some pos)
    {p : Producer T} (hp : p.position = none) :
    Placed c ((s.storeSeq c pos (pos + 1)).setProducer i p) := by
  have hheld {j : ι} {q : Nat}
      (hq : (((s.storeSeq c pos (pos + 1)).setProducer i p).producers j).position = some q) :
      (s.producers j).position = some q ∧ j ≠ i := by
    simp only [State.setProducer, Function.update_apply] at hq
    split at hq
    next => rw [hp] at hq; cases hq
    next hj => exact ⟨hq, hj⟩
  have hseq (q : Nat) :
      (((s.storeSeq c pos (pos + 1)).setProducer i p).slot c q).sequence =
        if q % c.val = pos % c.val then pos + 1 else (s.slot c q).sequence :=
    State.sequence_storeSeq
  have hlt := h.held hi
  refine ⟨h.freed_le, fun {q} hq hq' => ?_, fun q => ?_, fun hq => h.held (hheld hq).1,
    fun hq hq' => h.held_inj (hheld hq).1 (hheld hq').1, fun {j q} hq => ?_,
    h.consumer.mono rfl (Nat.le_refl _) fun hq => .inl (hheld hq).1⟩
  · rw [hseq]
    split
    next hmod =>
      -- `q` is the first position of the window with this slot, and `pos` is not before it
      by_contra hgt
      have hq'' : q < s.freed + c.val := hq'
      have := mod_window_inj (a := s.freed) hq hq'' hlt.1 (by omega) hmod
      omega
    next => exact h.le_sequence hq hq'
  · rw [hseq]
    split
    next => exact .inl hlt.2
    next => exact h.sequence_le q
  · rw [hseq]
    split
    next =>
      intro heq
      have hpq : pos = q := Nat.succ.inj heq
      exact (hheld hq).2 (h.held_inj (hheld hq).1 (hpq ▸ hi))
    next => exact h.unpublished (hheld hq).1

/-! ### Steps -/

variable [Inhabited T]

theorem produce (h : Placed c s) {i : ι} (hs : MpscRithmicQueue.produce c s i = some t) :
    Placed c t := by
  -- a load or a write moves the push on at its position, a store of a sequence ends it
  unfold MpscRithmicQueue.produce at hs
  split at hs
  next => cases hs
  next hi =>
    split at hs <;> cases hs <;> exact h.setProducer (by rw [hi]; rfl)
  next hi =>
    split at hs
    · cases hs; exact h.setProducer (by rw [hi]; rfl)
    · split at hs <;> cases hs <;> exact h.setProducer (by rw [hi]; rfl)
  next hi =>
    split at hs <;> cases hs
    · exact h.setProducer (by rw [hi]; rfl)
    · exact h
  next hi =>
    cases hs
    exact (h.writeData _ _).setProducer (congrArg Producer.position hi).symm
  next event pos hi =>
    cases hs
    exact (h.publish (congrArg Producer.position hi) rfl).record pos (.accepted event)
  next hi =>
    cases hs
    exact (h.writeData _ _).setProducer (congrArg Producer.position hi).symm
  next pos hi =>
    cases hs
    exact (h.publish (congrArg Producer.position hi) rfl).record pos .dropped
  next hi =>
    cases hs
    have hcount : Placed c { s with droppedCount := s.droppedCount + 1 } :=
      h.keep rfl rfl (fun _ => rfl) (fun _ => rfl) h.consumer
    exact hcount.setProducer (congrArg Producer.position hi).symm

omit [DecidableEq ι] [Inhabited T] in
theorem consume (h : Placed c s) (hc : 0 < c.exp) : Placed c (MpscRithmicQueue.consume c s) := by
  -- up to the store of the sequence the consumer only reads, and `freed` stays
  have hk := h.consumer
  unfold MpscRithmicQueue.consume
  split
  next heq => exact h.keep rfl (by simp [State.freed, heq]) (fun _ => rfl) (fun _ => rfl) rfl
  next pos heq =>
    rw [heq] at hk
    split
    next => exact h.keep rfl (by simp [State.freed, heq]) (fun _ => rfl) (fun _ => rfl) trivial
    next hseq =>
      exact h.keep rfl (by simp [State.freed, heq]) (fun _ => rfl) (fun _ => rfl)
        ⟨hk, h.released hc (not_not.mp hseq)⟩
  next pos heq =>
    rw [heq] at hk
    exact h.keep rfl (by simp [State.freed, heq]) (fun _ => rfl) (fun _ => rfl) hk
  next pos out heq =>
    rw [heq] at hk
    exact h.keep rfl (by simp [State.freed, heq, hk.1]) (fun _ => rfl) (fun _ => rfl) ⟨rfl, hk.2⟩
  next heq => exact h.release hc heq

theorem step (h : Placed c s) (hc : 0 < c.exp) {a : Action ι T}
    (hs : MpscRithmicQueue.step c s a = some t) : Placed c t := by
  cases a with
  | tryPush i event | push i event =>
    simp only [MpscRithmicQueue.step] at hs
    split at hs <;> cases hs
    exact h.reserve hc i fun _ => rfl
  | produce i => exact h.produce hs
  | consume => cases hs; exact h.consume hc

end Placed

/-! ## The simulation -/

namespace Placed

/-- A sequence lies less than `2 ^ 64` above the first position not handed back. -/
theorem sequence_window (h : Placed c s) (hb : s.writePos < s.freed + 2 ^ 64) (p : Nat) :
    s.freed ≤ (s.slot c p).sequence ∧ (s.slot c p).sequence < s.freed + 2 ^ 64 := by
  constructor
  · obtain ⟨q, hq, hq', hmod⟩ := exists_mod_window s.freed p c.val_pos
    rw [← State.slot_congr hmod]
    exact Nat.le_trans hq (h.le_sequence hq hq')
  · have := c.val_lt
    rcases h.sequence_le p with hle | ⟨-, hle⟩ <;> omega

theorem free_words (h : Placed c s) (hb : s.writePos < s.freed + 2 ^ 64) {i : ι} {p : Nat}
    (hi : (s.producers i).position = some p) : s.words.free c (.ofNat p) = s.free c p := by
  obtain ⟨hseq, hseq'⟩ := h.sequence_window hb p
  obtain ⟨hp, hp'⟩ := h.held hi
  rw [Words.State.free, State.free, State.words_slot, Bool.eq_iff_iff, beq_iff_eq, beq_iff_eq]
  exact word_eq_iff hseq hseq' hp (by omega)

theorem published_words (h : Placed c s) (hb : s.writePos < s.freed + 2 ^ 64) {p : Nat}
    (hk : s.consumer = .loadSequence p) :
    (s.words.slot c (.ofNat p)).sequence = .ofNat p + 1 ↔ (s.slot c p).sequence = p + 1 := by
  obtain ⟨hseq, hseq'⟩ := h.sequence_window hb p
  have hp : p = s.readPos := by simpa [hk, ConsumerPlaced] using h.consumer
  have hf : s.freed = s.readPos := by simp [State.freed, hk]
  rw [State.words_slot, word_succ]
  exact word_eq_iff hseq hseq' (by omega) (by omega)

variable [DecidableEq ι] [Inhabited T]

theorem produce_words (h : Placed c s) (hb : s.writePos < s.freed + 2 ^ 64) (i : ι) :
    Words.produce c s.words i = (MpscRithmicQueue.produce c s i).map State.words := by
  have hw : s.words.producers i = (s.producers i).words := rfl
  have hmove (p : Producer T) :
      some (s.words.setProducer i p.words) = (some (s.setProducer i p)).map State.words :=
    congrArg some (State.words_setProducer i p).symm
  unfold Words.produce MpscRithmicQueue.produce
  cases hi : s.producers i <;> rw [hi] at hw <;> simp only [hw, Producer.words]
  case idle => rfl
  case fastLoad event pos =>
    rw [h.free_words hb (congrArg Producer.position hi)]
    split
    · exact hmove (.write event pos)
    · exact hmove (.spinLoad event pos 0)
  case spinLoad event pos spin =>
    rw [h.free_words hb (congrArg Producer.position hi)]
    split
    · exact hmove (.write event pos)
    · split
      · exact hmove (.dropWrite pos)
      · exact hmove (.spinLoad event pos (spin + 1))
  case pushLoad event pos =>
    rw [h.free_words hb (congrArg Producer.position hi)]
    split
    · exact hmove (.write event pos)
    · rfl
  case write | dropWrite =>
    rw [Option.map_some, State.words_setProducer, State.words_writeData]; rfl
  case publish | dropPublish =>
    rw [Option.map_some, State.words_setProducer, word_succ, ← State.words_storeSeq]; rfl
  case dropCount =>
    rw [Option.map_some, State.words_setProducer]
    simp only [State.words, ← word_succ]; rfl

omit [DecidableEq ι] [Inhabited T] in
theorem consume_words (h : Placed c s) (hb : s.writePos < s.freed + 2 ^ 64) :
    Words.consume c s.words = (MpscRithmicQueue.consume c s).words := by
  have hw : s.words.consumer = s.consumer.words := rfl
  unfold Words.consume MpscRithmicQueue.consume
  cases hk : s.consumer <;> rw [hk] at hw <;> simp only [hw, Consumer.words]
  case idle => rfl
  case loadSequence pos =>
    simp only [ne_eq, h.published_words hb hk]
    split <;> rfl
  case readData pos => rw [State.words_slot]; rfl
  case storeReadPos pos out => rw [word_succ]; rfl
  case storeSequence pos out =>
    rw [Capacity.word, ← UInt64.ofNat_add, ← State.words_storeSeq]; rfl

theorem step_words (h : Placed c s) (hb : s.writePos < s.freed + 2 ^ 64) (a : Action ι T) :
    Words.step c s.words a = (MpscRithmicQueue.step c s a).map State.words := by
  have hw (i : ι) : s.words.producers i = (s.producers i).words := rfl
  cases a with
  | tryPush i event =>
    simp only [Words.step, MpscRithmicQueue.step, hw]
    cases s.producers i
    case idle =>
      exact congrArg some (State.words_reserve (q := .fastLoad event) fun _ => rfl).symm
    all_goals rfl
  | push i event =>
    simp only [Words.step, MpscRithmicQueue.step, hw]
    cases s.producers i
    case idle =>
      exact congrArg some (State.words_reserve (q := .pushLoad event) fun _ => rfl).symm
    all_goals rfl
  | produce i => exact h.produce_words hb i
  | consume => exact congrArg some (h.consume_words hb)

theorem exec_words (h : Placed c s) (hc : 0 < c.exp) {as : List (Action ι T)}
    (hb : (machine ι T c).Along (fun s _ => s.writePos < s.freed + 2 ^ 64) s as) :
    (Words.machine ι T c).exec s.words as = ((machine ι T c).exec s as).map State.words := by
  induction as generalizing s with
  | nil => rfl
  | cons a as ih =>
    rw [Machine.exec_cons, Machine.exec_cons]
    change (Words.step c s.words a).bind _ = _
    rw [h.step_words hb.1 a]
    change Option.bind (Option.map _ ((machine ι T c).step s a)) _ = _
    cases hs : (machine ι T c).step s a with
    | none => rfl
    | some t => exact ih (h.step hc hs) (hb.2 t hs)

end Placed

/-- The queue of the source, with its 64-bit words, does what the queue with natural numbers does,
step by step, in every run in which fewer than `2 ^ 64` reserved positions wait for the consumer:
the same schedules are possible, and they end with the words of the same counters, the same slots
and the same popped values. -/
theorem exec_words [DecidableEq ι] [Inhabited T] (hc : 0 < c.exp) {as : List (Action ι T)}
    (hb : (machine ι T c).Along (fun s _ => s.writePos < s.freed + 2 ^ 64) init as) :
    (Words.machine ι T c).exec Words.init as = ((machine ι T c).exec init as).map State.words :=
  Placed.init.exec_words hc hb

end MpscRithmicQueue

end Sqc
