import SmartQuantCollector.Exchange.Rithmic.RithmicQueueInvariant

/-! # What `MpscRithmicQueue` delivers

`KeepsPromise` is the promise of the queue in one state: accepted events come out unaltered, each
at its own position, and the consumer is never stuck behind a finished push. It holds in every
reachable state as long as no sentinel is written into a slot that the consumer has not freed
(`keepsPromise_of_dropsIntoFreedSlot`). `TryPush` does not check this: after its last failed load
it writes `T{}` and the sequence `pos + 1` over whatever the slot holds, and the position one lap
earlier can never be popped again (`saturated_tryPush_blocks_consumer`). -/

namespace Sqc
open Concurrency

namespace MpscRithmicQueue

variable {ι T : Type*} [DecidableEq ι] [Inhabited T] {c : Capacity} {s t : State ι T}

/-! ## `TryPop` without interruption -/

/-- `TryPop`, called in `s` while no other thread moves, returns true with `out` and ends in `t`. -/
def Pops (c : Capacity) (s t : State ι T) (out : T) : Prop :=
  (machine ι T c).exec s (consumerRun 5) = some t ∧ t.consumer = .idle ∧
    t.popped = s.popped ++ [out]

/-- `TryPop`, called in `s` while no other thread moves, returns false and changes nothing. -/
def PopFails (c : Capacity) (s : State ι T) : Prop :=
  s.consumer = .idle ∧ (machine ι T c).exec s (consumerRun 2) = some s

/-- The state after a successful pop. -/
def afterPop (c : Capacity) (s : State ι T) : State ι T :=
  { s.storeSeq c s.readPos (s.readPos + c.val) with
    readPos := s.readPos + 1
    consumer := .idle
    popped := s.popped ++ [(s.slot c s.readPos).data] }

theorem exec_consumerRun (n : Nat) (s : State ι T) :
    (machine ι T c).exec s (consumerRun n) = some ((consume c)^[n] s) :=
  Machine.exec_replicate _ (fun _ => rfl) n s

theorem pops_afterPop (hk : s.consumer = .idle)
    (hseq : (s.slot c s.readPos).sequence = s.readPos + 1) :
    Pops c s (afterPop c s) (s.slot c s.readPos).data := by
  refine ⟨?_, rfl, rfl⟩
  obtain ⟨w, d, slots, r, ps, k, os, out⟩ := s
  cases hk
  rw [exec_consumerRun, Option.some.injEq]
  -- the second operation is the only one that branches
  have h : consume c (consume c (⟨w, d, slots, r, ps, .idle, os, out⟩ : State ι T)) =
      ⟨w, d, slots, r, ps, .readData r, os, out⟩ := if_neg (not_not.mpr hseq)
  rw [show 5 = 3 + 2 from rfl, Function.iterate_add_apply]
  exact congrArg (consume c)^[3] h

theorem popFails_of_sequence (hk : s.consumer = .idle)
    (hseq : (s.slot c s.readPos).sequence ≠ s.readPos + 1) : PopFails c s := by
  refine ⟨hk, ?_⟩
  obtain ⟨w, d, slots, r, ps, k, os, out⟩ := s
  cases hk
  rw [exec_consumerRun, Option.some.injEq]
  simp only [Function.iterate_succ, Function.iterate_zero, Function.comp_apply, id]
  exact if_pos hseq

theorem not_pops_of_popFails (h : PopFails c s) {out : T} : ¬ Pops c s t out := by
  rintro ⟨hrun, ht, -⟩
  obtain ⟨hk, hrun'⟩ := h
  rw [exec_consumerRun, Option.some.injEq] at hrun hrun'
  -- two failed calls later the fifth operation is again the first one of a call
  have h5 : (consume c)^[5] s = consume c s := by
    rw [show 5 = 1 + 2 + 2 from rfl, Function.iterate_add_apply, hrun', Function.iterate_add_apply,
      hrun', Function.iterate_one]
  rw [← hrun, h5] at ht
  simp only [consume, hk] at ht
  cases ht

/-! ## The promise -/

/-- No push and no pop is in progress. -/
def State.Quiet (s : State ι T) : Prop := (∀ i, s.producers i = .idle) ∧ s.consumer = .idle

/-- The promise of the queue in one state. Position `p` of `popped` is what `TryPop` returned for
the push that reserved `p`, so no accepted event can come out at two places. -/
structure KeepsPromise (c : Capacity) (s : State ι T) : Prop where
  /-- An accepted event that has been popped came out unaltered, in its turn. -/
  popped_accepted : ∀ {p e}, s.outcomes p = some (.accepted e) → p < s.popped.length →
    s.popped[p]? = some e
  /-- Every popped value is an accepted event or the sentinel of a dropped one. -/
  popped_only : ∀ {p v}, s.popped[p]? = some v → ∃ o, s.outcomes p = some o ∧ v = o.value
  /-- An accepted event that has not been popped lies unaltered in its slot, published. -/
  intact : ∀ {p e}, s.outcomes p = some (.accepted e) → s.popped.length ≤ p →
    s.slot c p = ⟨p + 1, e⟩
  /-- The consumer is never stuck. -/
  pops : s.Quiet → s.readPos < s.writePos →
    ∃ t o, s.outcomes s.readPos = some o ∧ Pops c s t o.value
  /-- Popping until false returns every accepted event. -/
  drains : s.Quiet → ∃ n t, (machine ι T c).exec s (consumerRun n) = some t ∧ PopFails c t ∧
    ∀ {p e}, s.outcomes p = some (.accepted e) → t.popped[p]? = some e

namespace Inv

omit [DecidableEq ι] in
theorem outcome_of_quiet (h : Inv c s) (hq : s.Quiet) {p : Nat} (hp : p < s.writePos) :
    ∃ o, s.outcomes p = some o := by
  cases ho : s.outcomes p with
  | some o => exact ⟨o, rfl⟩
  | none =>
    obtain ⟨i, hi⟩ := h.holder hp ho
    rw [hq.1 i] at hi; cases hi

omit [DecidableEq ι] in
theorem slot_of_outcome (h : Inv c s) {p : Nat} {o : Outcome T} (hp : s.freed ≤ p)
    (ho : s.outcomes p = some o) : s.slot c p = ⟨p + 1, o.value⟩ := by
  have hseq := h.sequence_eq hp (h.outcome_lt ho).2
  rw [ho, Option.isSome_some, if_pos rfl] at hseq
  rw [← hseq, ← h.data_eq hp ho]

theorem pops_of_quiet (h : Inv c s) (hq : s.Quiet) (hlt : s.readPos < s.writePos) :
    ∃ o, s.outcomes s.readPos = some o ∧ Pops c s (afterPop c s) o.value := by
  obtain ⟨o, ho⟩ := h.outcome_of_quiet hq hlt
  have hfreed : s.freed = s.readPos := by simp only [State.freed, hq.2]
  have hslot := h.slot_of_outcome (Nat.le_of_eq hfreed) ho
  have hpop := pops_afterPop hq.2 (show (s.slot c s.readPos).sequence = _ by rw [hslot])
  rw [hslot] at hpop
  exact ⟨o, ho, hpop⟩

theorem consumerRun (h : Inv c s) (hc : 0 < c.exp) {n : Nat}
    (hs : (machine ι T c).exec s (consumerRun n) = some t) : Inv c t := by
  rw [exec_consumerRun, Option.some.injEq] at hs
  subst hs
  induction n with
  | zero => exact h
  | succ n ih => rw [Function.iterate_succ_apply']; exact ih.consume hc

/-- Popping alone from a quiet state, the consumer catches up with the producers. -/
theorem drains (h : Inv c s) (hc : 0 < c.exp) (hq : s.Quiet) :
    ∃ n t, (machine ι T c).exec s (MpscRithmicQueue.consumerRun n) = some t ∧ t.Quiet ∧
      t.readPos = t.writePos ∧ t.outcomes = s.outcomes ∧ t.writePos = s.writePos := by
  generalize hd : s.writePos - s.readPos = d
  induction d generalizing s with
  | zero =>
    have hle : s.readPos ≤ s.writePos := by
      by_contra hlt
      have hlen := h.popped_length
      have hfreed : s.freed = s.readPos := by simp only [State.freed, hq.2]
      obtain ⟨o, ho, -⟩ := h.popped_value
        (List.getElem?_eq_getElem (l := s.popped) (i := s.writePos) (by omega))
      exact absurd (h.outcome_lt ho).1 (Nat.lt_irrefl _)
    exact ⟨0, s, rfl, hq, by omega, rfl, rfl⟩
  | succ d ih =>
    obtain ⟨o, ho, hpop⟩ := h.pops_of_quiet hq (by omega)
    have hquiet : (afterPop c s).Quiet := ⟨hq.1, rfl⟩
    obtain ⟨n, t, hrun, ht⟩ := ih (h.consumerRun hc hpop.1) hquiet
      (by show s.writePos - (s.readPos + 1) = d; omega)
    refine ⟨5 + n, t, ?_, ht⟩
    rw [MpscRithmicQueue.consumerRun, List.replicate_append_replicate.symm]
    exact Machine.exec_trans _ hpop.1 hrun

theorem keepsPromise (h : Inv c s) (hc : 0 < c.exp) : KeepsPromise c s where
  popped_accepted {p e} ho hp := by
    obtain ⟨o, ho', hv⟩ := h.popped_value (List.getElem?_eq_getElem hp)
    rw [ho] at ho'
    cases ho'
    rw [List.getElem?_eq_getElem hp, hv]; rfl
  popped_only := h.popped_value
  intact ho hp := h.slot_of_outcome (h.popped_length ▸ hp) ho
  pops hq hlt := ⟨_, h.pops_of_quiet hq hlt⟩
  drains hq := by
    obtain ⟨n, t, hrun, htq, hrw, hos, hwp⟩ := h.drains hc hq
    have ht := h.consumerRun hc hrun
    have hfreed : t.freed = t.readPos := by simp only [State.freed, htq.2]
    refine ⟨n, t, hrun, popFails_of_sequence htq.2 fun hseq => ?_, fun {p e} ho => ?_⟩
    · rw [ht.sequence_eq (by omega) (by have := c.val_pos; omega)] at hseq
      split at hseq
      next hsome =>
        obtain ⟨o, ho⟩ := Option.isSome_iff_exists.mp hsome
        have := (ht.outcome_lt ho).1
        omega
      next => omega
    · have hlen := ht.popped_length
      have := (h.outcome_lt ho).1
      have hp : p < t.popped.length := by omega
      obtain ⟨o, ho', hv⟩ := ht.popped_value (List.getElem?_eq_getElem hp)
      rw [hos, ho] at ho'
      cases ho'
      rw [List.getElem?_eq_getElem hp, hv]; rfl

end Inv

/-- In every run in which sentinels only go into freed slots, drops included, the queue keeps its
promise in every state reached. -/
theorem keepsPromise_of_dropsIntoFreedSlot (c : Capacity) (hc : 0 < c.exp)
    (as : List (Action ι T)) (s : State ι T) (hs : (machine ι T c).exec init as = some s)
    (hd : (machine ι T c).Along (DropsIntoFreedSlot c) init as) : KeepsPromise c s :=
  ((machine ι T c).exec_invariant (fun _ _ _ h ha => h.step hc ha) Inv.init hd hs).keepsPromise hc

/-! ## Running out of the spin budget -/

/-- All loads of the spin loop, the last of which finds the budget exhausted. -/
def spinOut (i : ι) : List (Action ι T) := List.replicate (kMaxSpin + 1) (.produce i)

private theorem spin_step {i : ι} {e : T} {pos k : Nat} (hbusy : s.free c pos = false) :
    step c (s.setProducer i (.spinLoad e pos k)) (.produce i) =
      some (s.setProducer i
        (if k + 1 > kMaxSpin then .dropWrite pos else .spinLoad e pos (k + 1))) := by
  have hi : (s.setProducer i (.spinLoad e pos k)).producers i = .spinLoad e pos k :=
    Function.update_self ..
  have hbusy' : (s.setProducer i (.spinLoad e pos k)).free c pos = false := hbusy
  simp only [step, produce, hi, hbusy', State.setProducer_setProducer, Bool.false_eq_true,
    if_false]
  split <;> rfl

omit [Inhabited T] in
private theorem spin_along {i : ι} {e : T} {pos k : Nat} :
    DropsIntoFreedSlot c (s.setProducer i (.spinLoad e pos k)) (.produce i) := by
  intro q hq
  rw [show (s.setProducer i (.spinLoad e pos k)).producers i = .spinLoad e pos k from
    Function.update_self ..] at hq
  cases hq

/-- A `TryPush` whose slot stays occupied ends at the write of the sentinel. -/
theorem exec_spinOut {i : ι} {e : T} {pos : Nat} (hi : s.producers i = .spinLoad e pos 0)
    (hbusy : s.free c pos = false) :
    (machine ι T c).exec s (spinOut i) = some (s.setProducer i (.dropWrite pos)) ∧
      (machine ι T c).Along (DropsIntoFreedSlot c) s (spinOut i) := by
  have key : ∀ n k, k + n = kMaxSpin →
      (machine ι T c).exec (s.setProducer i (.spinLoad e pos k))
          (List.replicate (n + 1) (.produce i)) = some (s.setProducer i (.dropWrite pos)) ∧
        (machine ι T c).Along (DropsIntoFreedSlot c) (s.setProducer i (.spinLoad e pos k))
          (List.replicate (n + 1) (.produce i)) := by
    intro n
    induction n with
    | zero =>
      intro k hk
      have hstep := spin_step (c := c) (i := i) (e := e) (k := k) hbusy
      rw [if_pos (by omega)] at hstep
      exact ⟨(Machine.exec_singleton _ _ _).trans hstep, spin_along, fun _ _ => trivial⟩
    | succ n ih =>
      intro k hk
      have hstep := spin_step (c := c) (i := i) (e := e) (k := k) hbusy
      rw [if_neg (by omega)] at hstep
      obtain ⟨hrun, halong⟩ := ih (k + 1) (by omega)
      rw [List.replicate_succ]
      refine ⟨(Machine.exec_cons_iff _).mpr ⟨_, hstep, hrun⟩, spin_along, fun t ht => ?_⟩
      cases hstep.symm.trans ht
      exact halong
  have h := key kMaxSpin 0 (Nat.zero_add _)
  rw [State.setProducer_self hi] at h
  exact h

/-! ### Two slots, one producer -/

def twoSlots : Capacity := ⟨1, by decide⟩

/-- Two accepted pushes, then a `TryPush` up to its spin loop. -/
def fillTwoSlots : List (Action Unit Nat) :=
  [.tryPush () 1, .produce (), .produce (), .produce (),
    .tryPush () 2, .produce (), .produce (), .produce (), .tryPush () 3, .produce ()]

/-- The three operations of the drop: sentinel, sequence, counter. -/
def drop : List (Action Unit Nat) := [.produce (), .produce (), .produce ()]

private theorem exec_fillTwoSlots :
    ∃ s, (machine Unit Nat twoSlots).exec init fillTwoSlots = some s ∧
      s.producers () = .spinLoad 3 2 0 ∧ s.free twoSlots 2 = false ∧ s.consumer = .idle ∧
      s.readPos = 0 ∧ s.writePos = 3 ∧ s.popped = [] ∧ s.outcomes 0 = some (.accepted 1) :=
  ⟨_, rfl, rfl, rfl, rfl, rfl, rfl, rfl, rfl⟩

private theorem exec_drop (s : State Unit Nat) :
    ∃ t, (machine Unit Nat twoSlots).exec (s.setProducer () (.dropWrite 2)) drop = some t ∧
      t.producers () = .idle ∧ t.consumer = s.consumer ∧ t.readPos = s.readPos ∧
      t.writePos = s.writePos ∧ t.popped = s.popped ∧ t.outcomes 0 = s.outcomes 0 ∧
      (t.slot twoSlots 0).sequence = 3 :=
  ⟨_, rfl, rfl, rfl, rfl, rfl, rfl, rfl, rfl⟩

/-- The third push runs out of its budget and writes over the first event, which was accepted and
never popped. Nothing is in progress any more, the queue is not empty, and `TryPop` returns false
for good. -/
theorem saturated_tryPush_blocks_consumer :
    ∃ s : State Unit Nat,
      (machine Unit Nat twoSlots).exec init (fillTwoSlots ++ spinOut () ++ drop) = some s ∧
      s.Quiet ∧ s.readPos < s.writePos ∧ s.outcomes 0 = some (.accepted 1) ∧ s.popped = [] ∧
      PopFails twoSlots s ∧ ¬ KeepsPromise twoSlots s := by
  obtain ⟨s, hrun, hi, hbusy, hk, hr, hw, hp, ho⟩ := exec_fillTwoSlots
  obtain ⟨t, hdrop, hi', hk', hr', hw', hp', ho', hseq⟩ := exec_drop s
  have hrun' := Machine.exec_trans _ hrun (exec_spinOut hi hbusy).1
  refine ⟨t, Machine.exec_trans _ hrun' hdrop, ⟨fun _ => hi', hk'.trans hk⟩,
    by omega, ho'.trans ho, hp'.trans hp, popFails_of_sequence (hk'.trans hk) ?_, fun h => ?_⟩
  · rw [hr', hr, hseq]; decide
  · have hslot := h.intact (ho'.trans ho) (by rw [hp', hp]; exact Nat.le_refl 0)
    rw [hslot] at hseq
    exact absurd hseq (by decide)

private theorem exec_late_drop :
    ∃ s t, (machine Unit Nat twoSlots).exec init fillTwoSlots = some s ∧
      s.producers () = .spinLoad 3 2 0 ∧ s.free twoSlots 2 = false ∧
      (machine Unit Nat twoSlots).Along (DropsIntoFreedSlot twoSlots) init fillTwoSlots ∧
      (machine Unit Nat twoSlots).exec (s.setProducer () (.dropWrite 2)) (consumerRun 5 ++ drop) =
        some t ∧
      (machine Unit Nat twoSlots).Along (DropsIntoFreedSlot twoSlots)
        (s.setProducer () (.dropWrite 2)) (consumerRun 5 ++ drop) ∧
      t.outcomes 2 = some .dropped ∧ t.popped = [1] :=
  ⟨_, _, rfl, rfl, rfl, by decide, rfl, by decide, rfl, rfl⟩

/-- The same drop, one pop later: the consumer frees the slot between the last failed load and the
write of the sentinel, and the promise is kept. -/
theorem keepsPromise_after_late_drop :
    ∃ s : State Unit Nat,
      (machine Unit Nat twoSlots).exec init
        (fillTwoSlots ++ (spinOut () ++ (consumerRun 5 ++ drop))) = some s ∧
      s.outcomes 2 = some .dropped ∧ s.popped = [1] ∧ KeepsPromise twoSlots s := by
  obtain ⟨s, t, hfill, hi, hbusy, hfill', hdrop, hdrop', ho, hp⟩ := exec_late_drop
  obtain ⟨hspin, hspin'⟩ := exec_spinOut hi hbusy
  have hrun := Machine.exec_trans _ hfill (Machine.exec_trans _ hspin hdrop)
  refine ⟨t, hrun, ho, hp, keepsPromise_of_dropsIntoFreedSlot twoSlots (by decide) _ t hrun ?_⟩
  refine (Machine.along_append _).mpr ⟨hfill', fun u hu => ?_⟩
  cases hfill.symm.trans hu
  refine (Machine.along_append _).mpr ⟨hspin', fun u hu => ?_⟩
  cases hspin.symm.trans hu
  exact hdrop'

/-- With a single slot the second push finds the first event's sequence `1` equal to its own
position and writes over it; no budget runs out. -/
theorem single_slot_overwrites :
    ∃ s : State Unit Nat,
      (machine Unit Nat ⟨0, by decide⟩).exec init
        [.push () 1, .produce (), .produce (), .produce (),
          .push () 2, .produce (), .produce (), .produce ()] = some s ∧
      s.outcomes 0 = some (.accepted 1) ∧ s.popped = [] ∧ ¬ KeepsPromise ⟨0, by decide⟩ s := by
  refine ⟨_, rfl, rfl, rfl, fun h => ?_⟩
  have hslot := h.intact (p := 0) (e := 1) rfl (Nat.le_refl 0)
  exact absurd (congrArg Slot.sequence hslot) (by decide)

end MpscRithmicQueue

end Sqc
