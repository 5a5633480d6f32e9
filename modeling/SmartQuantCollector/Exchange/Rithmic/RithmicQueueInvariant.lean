import SmartQuantCollector.Exchange.Rithmic.RithmicQueue

/-! # The invariant of `MpscRithmicQueue`

`Inv` relates the slots to the recorded outcomes: the window of positions `freed ..< freed +
capacity` uses every slot once, a slot of the window carries the sequence `p + 1` exactly when the
push at `p` has published, and a reserved position that has not published is held by exactly one
producer in progress. It is kept by every action that satisfies `DropsIntoFreedSlot`, for
capacities of at least two (`Inv.step`). With one slot, `p + 1` means both "published at `p`" and
"free for `p + 1`", and the invariant fails at the second push. -/

namespace Sqc
open Concurrency

namespace MpscRithmicQueue

variable {ι T : Type*} {c : Capacity} {s t : State ι T}

/-- The position a push in progress has reserved and not yet published. -/
def Producer.position : Producer T → Option Nat
  | .idle | .dropCount => none
  | .fastLoad _ pos | .spinLoad _ pos _ | .pushLoad _ pos | .write _ pos | .publish _ pos
  | .dropWrite pos | .dropPublish pos => some pos

/-- The first position whose slot the consumer has not handed back yet. -/
def State.freed (s : State ι T) : Nat :=
  match s.consumer with
  | .storeSequence pos _ => pos
  | _ => s.readPos

/-- The position whose slot the push is about to overwrite with the sentinel. -/
def Producer.sentinel : Producer T → Option Nat
  | .dropWrite pos => some pos
  | _ => none

/-- A sentinel is only written into a slot that the consumer has freed since the last failed
load of the push that drops. -/
def DropsIntoFreedSlot (c : Capacity) (s : State ι T) : Action ι T → Prop
  | .produce i => ∀ pos ∈ (s.producers i).sentinel, (s.slot c pos).sequence = pos
  | _ => True

instance : ∀ a, Decidable (DropsIntoFreedSlot c s a)
  | .produce i => inferInstanceAs (Decidable (∀ pos ∈ (s.producers i).sentinel, _ = _))
  | .tryPush .. | .push .. | .consume => isTrue trivial

/-! ## Slots -/

theorem State.slot_congr {p q : Nat} (h : p % c.val = q % c.val) : s.slot c p = s.slot c q := by
  rw [State.slot, State.slot, and_mask, and_mask, h]

theorem State.free_iff {p : Nat} : s.free c p = true ↔ (s.slot c p).sequence = p := beq_iff_eq

theorem State.slot_setSlot {p q : Nat} {x : Slot T} :
    (s.setSlot c p x).slot c q = if q % c.val = p % c.val then x else s.slot c q := by
  simp only [State.slot, State.setSlot, and_mask, Function.update_apply]

theorem State.slot_writeData {p q : Nat} {x : T} :
    (s.writeData c p x).slot c q =
      if q % c.val = p % c.val then { s.slot c p with data := x } else s.slot c q :=
  State.slot_setSlot

theorem State.sequence_writeData {p q : Nat} {x : T} :
    ((s.writeData c p x).slot c q).sequence = (s.slot c q).sequence := by
  rw [State.slot_writeData]
  split
  next hq => rw [State.slot_congr hq]
  next => rfl

theorem State.slot_storeSeq {p q n : Nat} :
    (s.storeSeq c p n).slot c q =
      if q % c.val = p % c.val then { s.slot c p with sequence := n } else s.slot c q :=
  State.slot_setSlot

theorem State.sequence_storeSeq {p q n : Nat} :
    ((s.storeSeq c p n).slot c q).sequence =
      if q % c.val = p % c.val then n else (s.slot c q).sequence := by
  rw [State.slot_storeSeq]
  split <;> rfl

section
variable [DecidableEq ι]

theorem State.setProducer_setProducer (s : State ι T) (i : ι) (p q : Producer T) :
    (s.setProducer i p).setProducer i q = s.setProducer i q := by
  simp only [State.setProducer, Function.update_idem]

theorem State.setProducer_self {i : ι} {p : Producer T} (h : s.producers i = p) :
    s.setProducer i p = s := by
  simp only [State.setProducer, ← h, Function.update_eq_self]

end

/-! ## The invariant -/

variable [Inhabited T]

/-- What a push in progress knows about its slot. -/
def ProducerOk (c : Capacity) (s : State ι T) : Producer T → Prop
  | .write _ pos => (s.slot c pos).sequence = pos
  | .publish event pos => s.slot c pos = ⟨pos, event⟩
  | .dropPublish pos => s.slot c pos = ⟨pos, default⟩
  | _ => True

/-- What a pop in progress knows about its position. -/
def ConsumerOk (s : State ι T) : Consumer T → Prop
  | .idle => True
  | .loadSequence pos => pos = s.readPos
  | .readData pos => pos = s.readPos ∧ ∃ o, s.outcomes pos = some o
  | .storeReadPos pos out => pos = s.readPos ∧ ∃ o, s.outcomes pos = some o ∧ out = o.value
  | .storeSequence pos out => s.readPos = pos + 1 ∧ ∃ o, s.outcomes pos = some o ∧ out = o.value

structure Inv (c : Capacity) (s : State ι T) : Prop where
  popped_length : s.popped.length = s.freed
  popped_value : ∀ {p v}, s.popped[p]? = some v → ∃ o, s.outcomes p = some o ∧ v = o.value
  sequence_eq : ∀ {p}, s.freed ≤ p → p < s.freed + c.val →
    (s.slot c p).sequence = if (s.outcomes p).isSome then p + 1 else p
  data_eq : ∀ {p o}, s.freed ≤ p → s.outcomes p = some o → (s.slot c p).data = o.value
  outcome_lt : ∀ {p o}, s.outcomes p = some o → p < s.writePos ∧ p < s.freed + c.val
  held : ∀ {i p}, (s.producers i).position = some p → p < s.writePos ∧ s.outcomes p = none
  held_inj : ∀ {i j p}, (s.producers i).position = some p → (s.producers j).position = some p →
    i = j
  holder : ∀ {p}, p < s.writePos → s.outcomes p = none → ∃ i, (s.producers i).position = some p
  producer : ∀ i, ProducerOk c s (s.producers i)
  consumer : ConsumerOk s s.consumer

/-! ## What the invariant says about a slot -/

namespace Inv

theorem freed_le (h : Inv c s) {p : Nat} (hp : s.outcomes p = none) : s.freed ≤ p := by
  by_contra hlt
  have hp' : p < s.popped.length := by rw [h.popped_length]; omega
  obtain ⟨o, ho, -⟩ := h.popped_value (List.getElem?_eq_getElem hp')
  rw [hp] at ho; cases ho

/-- A slot whose sequence equals an unpublished position is free for it. This is where a capacity
of at least two is needed. -/
theorem lt_of_free (h : Inv c s) (hc : 0 < c.exp) {p : Nat}
    (hfree : (s.slot c p).sequence = p) : p < s.freed + c.val := by
  obtain ⟨q, hq, hq', hmod⟩ := exists_mod_window s.freed p c.val_pos
  have hseq := h.sequence_eq hq hq'
  rw [State.slot_congr hmod, hfree] at hseq
  by_contra hge
  have hpq : p = q + 1 := by split at hseq <;> omega
  rw [hpq] at hmod
  exact Capacity.succ_mod_ne hc q hmod.symm

/-- Two positions that are both in the window and share a slot are equal. -/
theorem eq_of_mod (h : Inv c s) (hc : 0 < c.exp) {p q : Nat} (hp : s.outcomes p = none)
    (hfree : (s.slot c p).sequence = p) (hq : s.freed ≤ q) (hq' : q < s.freed + c.val)
    (hmod : q % c.val = p % c.val) : q = p :=
  mod_window_inj hq hq' (h.freed_le hp) (h.lt_of_free hc hfree) hmod

end Inv

/-- A push that has found its slot free knows so until it publishes. -/
theorem ProducerOk.free {p : Producer T} {pos : Nat} (h : ProducerOk c s p)
    (hp : (∃ e, p = .write e pos) ∨ (∃ e, p = .publish e pos) ∨ p = .dropPublish pos) :
    (s.slot c pos).sequence = pos := by
  rcases hp with ⟨e, rfl⟩ | ⟨e, rfl⟩ | rfl
  · exact h
  · rw [show s.slot c pos = _ from h]
  · rw [show s.slot c pos = _ from h]

/-- A push in progress looks at the slot of its position only once it has found it free. -/
theorem ProducerOk.congr {p : Producer T} (h : ProducerOk c s p)
    (hslot : ∀ q, p.position = some q → (s.slot c q).sequence = q → t.slot c q = s.slot c q) :
    ProducerOk c t p := by
  cases p with
  | write e q => exact (congrArg Slot.sequence (hslot q rfl h)).trans h
  | publish e q => exact (hslot q rfl (h.free (.inr (.inl ⟨e, rfl⟩)))).trans h
  | dropPublish q => exact (hslot q rfl (h.free (.inr (.inr rfl)))).trans h
  | _ => trivial

/-- A pop in progress is not disturbed by further publications. -/
theorem ConsumerOk.mono {k : Consumer T} (h : ConsumerOk s k) (hread : t.readPos = s.readPos)
    (hout : ∀ {q o}, s.outcomes q = some o → t.outcomes q = some o) : ConsumerOk t k := by
  cases k with
  | idle => trivial
  | loadSequence q => exact h.trans hread.symm
  | readData q => exact ⟨h.1.trans hread.symm, h.2.imp fun _ => hout⟩
  | storeReadPos q out =>
    exact ⟨h.1.trans hread.symm, h.2.imp fun _ ho => ⟨hout ho.1, ho.2⟩⟩
  | storeSequence q out => exact ⟨hread.trans h.1, h.2.imp fun _ ho => ⟨hout ho.1, ho.2⟩⟩

/-- Another push in progress is not disturbed by a change to the slot of a position it does not
hold. -/
theorem Inv.producerOk_of_slot (h : Inv c s) (hc : 0 < c.exp) {i j : ι} {pos : Nat}
    (hi : (s.producers i).position = some pos) (hfree : (s.slot c pos).sequence = pos)
    (hij : j ≠ i)
    (hslot : ∀ q, q % c.val ≠ pos % c.val → t.slot c q = s.slot c q) :
    ProducerOk c t (s.producers j) := by
  refine (h.producer j).congr fun q hq hqfree => hslot q fun hmod => hij ?_
  -- two free positions of the window differ mod `c`
  have hqn := (h.held hq).2
  have hqpos := h.eq_of_mod hc (h.held hi).2 hfree (h.freed_le hqn) (h.lt_of_free hc hqfree) hmod
  exact h.held_inj hq (hqpos ▸ hi)

/-! ## Steps -/

namespace Inv

theorem init : Inv c (init : State ι T) where
  popped_length := rfl
  popped_value h := by simp [MpscRithmicQueue.init] at h
  sequence_eq {p} _ hp := by
    have hp : p < c.val := by simpa [State.freed, MpscRithmicQueue.init] using hp
    show p &&& (c.val - 1) = p
    rw [and_mask, Nat.mod_eq_of_lt hp]
  data_eq _ h := by cases h
  outcome_lt h := by cases h
  held h := by cases h
  held_inj h := by cases h
  holder h := by cases h
  producer _ := trivial
  consumer := trivial

variable [DecidableEq ι]

/-- A step of a push that moves on without touching the queue. -/
theorem setProducer (h : Inv c s) {i : ι} {p : Producer T}
    (hpos : p.position = (s.producers i).position) (hp : ProducerOk c s p) :
    Inv c (s.setProducer i p) := by
  have hposition : ∀ j, ((s.setProducer i p).producers j).position = (s.producers j).position := by
    intro j
    show (Function.update s.producers i p j).position = _
    rcases eq_or_ne j i with rfl | hj
    · rw [Function.update_self, hpos]
    · rw [Function.update_of_ne hj]
  exact {
    popped_length := h.popped_length
    popped_value := h.popped_value
    sequence_eq := h.sequence_eq
    data_eq := h.data_eq
    outcome_lt := h.outcome_lt
    held := fun {j _} hj => h.held ((hposition j).symm.trans hj)
    held_inj := fun {j k _} hj hk =>
      h.held_inj ((hposition j).symm.trans hj) ((hposition k).symm.trans hk)
    holder := fun hlt hn => (h.holder hlt hn).imp fun j hj => (hposition j).trans hj
    producer := fun j => by
      show ProducerOk c s (Function.update s.producers i p j)
      rcases eq_or_ne j i with rfl | hj
      · rw [Function.update_self]; exact hp
      · rw [Function.update_of_ne hj]; exact h.producer j
    consumer := h.consumer }

/-- `write_pos_.fetch_add(1)` by an idle thread. -/
theorem reserve (h : Inv c s) {i : ι} {p : Nat → Producer T}
    (hi : (s.producers i).position = none) (hpos : ∀ n, (p n).position = some n)
    (hp : ∀ (u : State ι T) n, ProducerOk c u (p n)) : Inv c (s.reserve i p) := by
  have hnew : s.outcomes s.writePos = none := by
    by_contra hne
    obtain ⟨o, ho⟩ := Option.ne_none_iff_exists'.mp hne
    exact absurd (h.outcome_lt ho).1 (Nat.lt_irrefl _)
  -- the new position goes to `i`, every other thread keeps its own
  have hcases : ∀ {j q}, ((s.reserve i p).producers j).position = some q →
      j = i ∧ q = s.writePos ∨ j ≠ i ∧ (s.producers j).position = some q := by
    intro j q hj
    change (Function.update s.producers i (p s.writePos) j).position = some q at hj
    rcases eq_or_ne j i with rfl | hji
    · rw [Function.update_self, hpos] at hj
      exact .inl ⟨rfl, (Option.some.inj hj).symm⟩
    · rw [Function.update_of_ne hji] at hj
      exact .inr ⟨hji, hj⟩
  exact {
    popped_length := h.popped_length
    popped_value := h.popped_value
    sequence_eq := h.sequence_eq
    data_eq := h.data_eq
    outcome_lt := fun ho => ⟨Nat.lt_succ_of_lt (h.outcome_lt ho).1, (h.outcome_lt ho).2⟩
    held := fun {j q} hj => by
      rcases hcases hj with ⟨-, rfl⟩ | ⟨-, hj⟩
      · exact ⟨Nat.lt_succ_self _, hnew⟩
      · exact ⟨Nat.lt_succ_of_lt (h.held hj).1, (h.held hj).2⟩
    held_inj := fun {j k q} hj hk => by
      rcases hcases hj with ⟨hji, hq⟩ | ⟨-, hj⟩ <;> rcases hcases hk with ⟨hki, hq'⟩ | ⟨-, hk⟩
      · exact hji.trans hki.symm
      · exact absurd (h.held hk).1 (hq ▸ Nat.lt_irrefl _)
      · exact absurd (h.held hj).1 (hq' ▸ Nat.lt_irrefl _)
      · exact h.held_inj hj hk
    holder := fun {q} hlt hn => by
      rcases Nat.lt_succ_iff_lt_or_eq.mp hlt with hlt | rfl
      · obtain ⟨j, hj⟩ := h.holder hlt hn
        have hji : j ≠ i := fun hji => by rw [hji, hi] at hj; cases hj
        exact ⟨j, (congrArg Producer.position (Function.update_of_ne hji _ _)).trans hj⟩
      · exact ⟨i, (congrArg Producer.position (Function.update_self i _ _)).trans (hpos _)⟩
    producer := fun j => by
      show ProducerOk c (s.reserve i p) (Function.update s.producers i (p s.writePos) j)
      rcases eq_or_ne j i with rfl | hj
      · rw [Function.update_self]; exact hp _ _
      · rw [Function.update_of_ne hj]; exact h.producer j
    consumer := h.consumer }

/-- A write of a slot's data by the push that holds the slot's free position. -/
theorem writeData (h : Inv c s) (hc : 0 < c.exp) {i : ι} {pos : Nat} {x : T} {p : Producer T}
    (hi : (s.producers i).position = some pos) (hfree : (s.slot c pos).sequence = pos)
    (hok : ProducerOk c (s.writeData c pos x) (s.producers i)) (hpos : p.position = some pos)
    (hp : ∀ u : State ι T, u.slot c pos = ⟨pos, x⟩ → ProducerOk c u p) :
    Inv c ((s.writeData c pos x).setProducer i p) := by
  have hn := (h.held hi).2
  have hother : ∀ q, q % c.val ≠ pos % c.val → (s.writeData c pos x).slot c q = s.slot c q :=
    fun q hq => by rw [State.slot_writeData, if_neg hq]
  have hu : Inv c (s.writeData c pos x) := {
    popped_length := h.popped_length
    popped_value := h.popped_value
    sequence_eq := fun hq hq' => State.sequence_writeData.trans (h.sequence_eq hq hq')
    data_eq := fun {q o} hq (ho : s.outcomes q = some o) => by
      have hne : q % c.val ≠ pos % c.val := fun hmod => by
        rw [h.eq_of_mod hc hn hfree hq (h.outcome_lt ho).2 hmod, hn] at ho; cases ho
      rw [hother q hne]; exact h.data_eq hq ho
    outcome_lt := h.outcome_lt
    held := h.held
    held_inj := h.held_inj
    holder := h.holder
    producer := fun j => by
      rcases eq_or_ne j i with rfl | hj
      · exact hok
      · exact h.producerOk_of_slot hc hi hfree hj hother
    consumer := h.consumer }
  refine hu.setProducer (hpos.trans hi.symm) (hp _ ?_)
  rw [State.slot_writeData, if_pos rfl]
  exact congrArg (Slot.mk · x) hfree

/-- The publication of a slot: the store of `pos + 1` into its sequence. -/
theorem publish (h : Inv c s) (hc : 0 < c.exp) {i : ι} {pos : Nat} {o : Outcome T}
    {p : Producer T} (hi : (s.producers i).position = some pos)
    (hslot : s.slot c pos = ⟨pos, o.value⟩) (hpos : p.position = none)
    (hp : ∀ u : State ι T, ProducerOk c u p) :
    Inv c (((s.storeSeq c pos (pos + 1)).record pos o).setProducer i p) := by
  have hn := (h.held hi).2
  have hfree : (s.slot c pos).sequence = pos := by rw [hslot]
  have hlt := h.lt_of_free hc hfree
  have hother : ∀ q, q % c.val ≠ pos % c.val → (s.storeSeq c pos (pos + 1)).slot c q = s.slot c q :=
    fun q hq => by rw [State.slot_storeSeq, if_neg hq]
  have hself : (s.storeSeq c pos (pos + 1)).slot c pos = ⟨pos + 1, o.value⟩ := by
    rw [State.slot_storeSeq, if_pos rfl, hslot]
  -- a position of the window other than `pos` keeps its slot
  have hkeep : ∀ {q}, s.freed ≤ q → q < s.freed + c.val → q ≠ pos →
      (s.storeSeq c pos (pos + 1)).slot c q = s.slot c q := fun hq hq' hne =>
    hother _ fun hmod => hne (h.eq_of_mod hc hn hfree hq hq' hmod)
  have hout : ∀ {q o'}, Function.update s.outcomes pos (some o) q = some o' →
      q = pos ∧ o' = o ∨ q ≠ pos ∧ s.outcomes q = some o' := by
    intro q o' ho
    rcases eq_or_ne q pos with rfl | hq
    · rw [Function.update_self] at ho
      exact .inl ⟨rfl, (Option.some.inj ho).symm⟩
    · rw [Function.update_of_ne hq] at ho
      exact .inr ⟨hq, ho⟩
  have hold : ∀ {q o'}, s.outcomes q = some o' →
      Function.update s.outcomes pos (some o) q = some o' := by
    intro q o' ho
    have hq : q ≠ pos := fun hq => by rw [hq, hn] at ho; cases ho
    rw [Function.update_of_ne hq]; exact ho
  have hprod : ∀ {j q}, (Function.update s.producers i p j).position = some q →
      j ≠ i ∧ q ≠ pos ∧ (s.producers j).position = some q := by
    intro j q hj
    rcases eq_or_ne j i with rfl | hji
    · rw [Function.update_self, hpos] at hj; cases hj
    · rw [Function.update_of_ne hji] at hj
      exact ⟨hji, fun hq => hji (h.held_inj (hq ▸ hj) hi), hj⟩
  exact {
    popped_length := h.popped_length
    popped_value := fun hv => (h.popped_value hv).imp fun o' ho => ⟨hold ho.1, ho.2⟩
    sequence_eq := fun {q} hq hq' => by
      show ((s.storeSeq c pos (pos + 1)).slot c q).sequence =
        if (Function.update s.outcomes pos (some o) q).isSome then q + 1 else q
      rcases eq_or_ne q pos with rfl | hne
      · rw [hself, Function.update_self]; rfl
      · rw [hkeep hq hq' hne, Function.update_of_ne hne]; exact h.sequence_eq hq hq'
    data_eq := fun {q o'} hq ho => by
      show ((s.storeSeq c pos (pos + 1)).slot c q).data = o'.value
      rcases hout ho with ⟨rfl, rfl⟩ | ⟨hne, ho⟩
      · rw [hself]
      · rw [hkeep hq (h.outcome_lt ho).2 hne]; exact h.data_eq hq ho
    outcome_lt := fun ho => by
      rcases hout ho with ⟨rfl, rfl⟩ | ⟨-, ho⟩
      · exact ⟨(h.held hi).1, hlt⟩
      · exact h.outcome_lt ho
    held := fun hj => by
      obtain ⟨-, hq, hj⟩ := hprod hj
      exact ⟨(h.held hj).1, (Function.update_of_ne hq _ _).trans (h.held hj).2⟩
    held_inj := fun hj hk => h.held_inj (hprod hj).2.2 (hprod hk).2.2
    holder := fun {q} hq hqn => by
      change Function.update s.outcomes pos (some o) q = none at hqn
      have hne : q ≠ pos := fun hq => by rw [hq, Function.update_self] at hqn; cases hqn
      rw [Function.update_of_ne hne] at hqn
      obtain ⟨j, hj⟩ := h.holder hq hqn
      have hji : j ≠ i := fun hji => by
        rw [hji, hi] at hj; exact hne (Option.some.inj hj).symm
      exact ⟨j, (congrArg Producer.position (Function.update_of_ne hji _ _)).trans hj⟩
    producer := fun j => by
      show ProducerOk c _ (Function.update s.producers i p j)
      rcases eq_or_ne j i with rfl | hj
      · rw [Function.update_self]; exact hp _
      · rw [Function.update_of_ne hj]
        exact h.producerOk_of_slot hc hi hfree hj hother
    consumer := h.consumer.mono rfl hold }

omit [DecidableEq ι] in
/-- A step of a pop that does not hand back a slot. -/
theorem setConsumer (h : Inv c s) {r : Nat} {k : Consumer T}
    (hfreed : State.freed { s with readPos := r, consumer := k } = s.freed)
    (hk : ConsumerOk { s with readPos := r, consumer := k } k) :
    Inv c { s with readPos := r, consumer := k } where
  popped_length := h.popped_length.trans hfreed.symm
  popped_value := h.popped_value
  sequence_eq := by rw [hfreed]; exact h.sequence_eq
  data_eq := by rw [hfreed]; exact h.data_eq
  outcome_lt := by rw [hfreed]; exact h.outcome_lt
  held := h.held
  held_inj := h.held_inj
  holder := h.holder
  producer := h.producer
  consumer := hk

omit [DecidableEq ι] in
/-- The last operation of a pop: the slot is handed back for `pos + capacity`. -/
theorem release (h : Inv c s) (hc : 0 < c.exp) {pos : Nat} {out : T}
    (hk : s.consumer = .storeSequence pos out) :
    Inv c { s.storeSeq c pos (pos + c.val) with
      consumer := .idle
      popped := s.popped ++ [out] } := by
  have hcons := h.consumer
  rw [hk] at hcons
  obtain ⟨hread, o, ho, rfl⟩ := hcons
  have hfreed : s.freed = pos := by simp only [State.freed, hk]
  have hself : s.slot c pos = ⟨pos + 1, o.value⟩ := by
    have hseq := h.sequence_eq (p := pos) (by omega) (by have := c.val_pos; omega)
    rw [ho, Option.isSome_some, if_pos rfl] at hseq
    have hdata := h.data_eq (p := pos) (by omega) ho
    rw [← hseq, ← hdata]
  have hslot : ∀ q, (s.storeSeq c pos (pos + c.val)).slot c q =
      if q % c.val = pos % c.val then ⟨pos + c.val, o.value⟩ else s.slot c q := fun q => by
    rw [State.slot_storeSeq, hself]
  -- inside the old window only `pos` itself uses the slot
  have hne : ∀ {q}, pos ≤ q → q < pos + c.val → q ≠ pos → q % c.val ≠ pos % c.val := by
    intro q hq hq' hqp hmod
    exact hqp (mod_window_inj hq hq' (Nat.le_refl _) (by have := c.val_pos; omega) hmod)
  have hlast : s.outcomes (pos + c.val) = none := by
    by_contra hsome
    obtain ⟨o', ho'⟩ := Option.ne_none_iff_exists'.mp hsome
    have := (h.outcome_lt ho').2
    omega
  have hlen : s.popped.length = pos := h.popped_length.trans hfreed
  exact {
    popped_length := by
      show (s.popped ++ [o.value]).length = s.readPos
      rw [List.length_append, hlen, hread]; rfl
    popped_value := fun {q v} hv => by
      rcases Nat.lt_trichotomy q pos with hq | rfl | hq
      · rw [List.getElem?_append_left (by omega)] at hv
        exact h.popped_value hv
      · refine ⟨o, ho, ?_⟩
        rw [List.getElem?_append_right (by omega), hlen] at hv
        simpa using hv.symm
      · rw [List.getElem?_eq_none (by simp [hlen]; omega)] at hv; cases hv
    sequence_eq := fun {q} (hq : s.readPos ≤ q) (hq' : q < s.readPos + c.val) => by
      show ((s.storeSeq c pos (pos + c.val)).slot c q).sequence =
        if (s.outcomes q).isSome then q + 1 else q
      rw [hslot]
      rcases Nat.lt_or_ge q (pos + c.val) with hlt | hge
      · rw [if_neg (hne (by omega) hlt (by omega))]
        exact h.sequence_eq (by omega) (by omega)
      · obtain rfl : q = pos + c.val := by omega
        rw [if_pos (Nat.add_mod_right ..), hlast]; rfl
    data_eq := fun {q o'} (hq : s.readPos ≤ q) (ho' : s.outcomes q = some o') => by
      have := (h.outcome_lt ho').2
      show ((s.storeSeq c pos (pos + c.val)).slot c q).data = o'.value
      rw [hslot, if_neg (hne (by omega) (by omega) (by omega))]
      exact h.data_eq (by omega) ho'
    outcome_lt := fun {q o'} (ho' : s.outcomes q = some o') => by
      have := h.outcome_lt ho'
      show q < s.writePos ∧ q < s.readPos + c.val
      omega
    held := h.held
    held_inj := h.held_inj
    holder := h.holder
    producer := fun j => (h.producer j).congr fun q hq hqfree => by
      -- a free position held by a push differs from `pos`, which is published
      have hqn := (h.held hq).2
      have hqlt := h.lt_of_free hc hqfree
      have hqge := h.freed_le hqn
      have hqp : q ≠ pos := fun hqp => by rw [hqp, ho] at hqn; cases hqn
      exact (hslot q).trans (if_neg (hne (by omega) (by omega) hqp))
    consumer := trivial }

omit [DecidableEq ι] in
theorem consume (h : Inv c s) (hc : 0 < c.exp) : Inv c (consume c s) := by
  have hcons := h.consumer
  cases hk : s.consumer with
  | idle =>
    simp only [MpscRithmicQueue.consume, hk]
    exact h.setConsumer (by simp only [State.freed, hk]) rfl
  | loadSequence pos =>
    rw [hk] at hcons
    have hfreed : s.freed = s.readPos := by simp only [State.freed, hk]
    simp only [MpscRithmicQueue.consume, hk]
    split
    · exact h.setConsumer (by simp only [State.freed, hk]) trivial
    next hseq =>
      refine h.setConsumer (by simp only [State.freed, hk]) ⟨hcons, ?_⟩
      have hpos : pos = s.freed := hcons.trans hfreed.symm
      rw [ne_eq, not_not, h.sequence_eq (by omega) (by have := c.val_pos; omega)] at hseq
      split at hseq
      next hsome => exact Option.isSome_iff_exists.mp hsome
      next => omega
  | readData pos =>
    rw [hk] at hcons
    obtain ⟨hpos, o, ho⟩ := hcons
    have hfreed : s.freed = s.readPos := by simp only [State.freed, hk]
    simp only [MpscRithmicQueue.consume, hk]
    exact h.setConsumer (by simp only [State.freed, hk])
      ⟨hpos, o, ho, h.data_eq (by omega) ho⟩
  | storeReadPos pos out =>
    rw [hk] at hcons
    obtain ⟨rfl, o, ho, hout⟩ := hcons
    simp only [MpscRithmicQueue.consume, hk]
    exact h.setConsumer (by simp only [State.freed, hk]) ⟨rfl, o, ho, hout⟩
  | storeSequence pos out =>
    simp only [MpscRithmicQueue.consume, hk]
    exact h.release hc hk

theorem produce (h : Inv c s) (hc : 0 < c.exp) {i : ι}
    (hdrop : ∀ pos ∈ (s.producers i).sentinel, (s.slot c pos).sequence = pos)
    (hs : produce c s i = some t) : Inv c t := by
  have hok := h.producer i
  cases hi : s.producers i with
  | idle => simp only [MpscRithmicQueue.produce, hi] at hs; cases hs
  | fastLoad e pos =>
    simp only [MpscRithmicQueue.produce, hi] at hs
    split at hs
    next hfree => cases hs; exact h.setProducer (by rw [hi]; rfl) (State.free_iff.mp hfree)
    next => cases hs; exact h.setProducer (by rw [hi]; rfl) trivial
  | spinLoad e pos spin =>
    simp only [MpscRithmicQueue.produce, hi] at hs
    split at hs
    next hfree => cases hs; exact h.setProducer (by rw [hi]; rfl) (State.free_iff.mp hfree)
    next =>
      split at hs <;> cases hs
      · exact h.setProducer (by rw [hi]; rfl) trivial
      · exact h.setProducer (by rw [hi]; rfl) trivial
  | pushLoad e pos =>
    simp only [MpscRithmicQueue.produce, hi] at hs
    split at hs
    next hfree => cases hs; exact h.setProducer (by rw [hi]; rfl) (State.free_iff.mp hfree)
    next => cases hs; exact h
  | write e pos =>
    simp only [MpscRithmicQueue.produce, hi] at hs
    cases hs
    rw [hi] at hok
    exact h.writeData hc (by rw [hi]; rfl) hok
      (by rw [hi]; exact State.sequence_writeData.trans hok) rfl fun _ hu => hu
  | publish e pos =>
    simp only [MpscRithmicQueue.produce, hi] at hs
    cases hs
    rw [hi] at hok
    exact h.publish hc (by rw [hi]; rfl) hok rfl fun _ => trivial
  | dropWrite pos =>
    simp only [MpscRithmicQueue.produce, hi] at hs
    cases hs
    exact h.writeData hc (by rw [hi]; rfl) (hdrop pos (by rw [hi]; rfl)) (by rw [hi]; trivial) rfl
      fun _ hu => hu
  | dropPublish pos =>
    simp only [MpscRithmicQueue.produce, hi] at hs
    cases hs
    rw [hi] at hok
    exact h.publish (o := .dropped) hc (by rw [hi]; rfl) hok rfl fun _ => trivial
  | dropCount =>
    simp only [MpscRithmicQueue.produce, hi] at hs
    cases hs
    have h' : Inv c { s with droppedCount := s.droppedCount + 1 } :=
      ⟨h.popped_length, h.popped_value, h.sequence_eq, h.data_eq, h.outcome_lt, h.held,
        h.held_inj, h.holder, h.producer, h.consumer⟩
    exact h'.setProducer (by show _ = (s.producers i).position; rw [hi]; rfl) trivial

/-- **The step lemma**: every atomic operation keeps the invariant, a drop provided it writes into
a freed slot. -/
theorem step (h : Inv c s) (hc : 0 < c.exp) {a : Action ι T} (ha : DropsIntoFreedSlot c s a)
    (hs : step c s a = some t) : Inv c t := by
  cases a with
  | tryPush i e =>
    simp only [MpscRithmicQueue.step] at hs
    split at hs
    next hi => cases hs; exact h.reserve (by rw [hi]; rfl) (fun _ => rfl) fun _ _ => trivial
    next => cases hs
  | push i e =>
    simp only [MpscRithmicQueue.step] at hs
    split at hs
    next hi => cases hs; exact h.reserve (by rw [hi]; rfl) (fun _ => rfl) fun _ _ => trivial
    next => cases hs
  | produce i => exact h.produce hc ha hs
  | consume => cases hs; exact h.consume hc

end Inv

end MpscRithmicQueue

end Sqc
