import Mathlib.Data.List.FinRange
import SmartQuantCollector.Lib.Machine
import SmartQuantCollector.Lib.Ring
import SmartQuantCollector.Lib.SlotPool

/-! # `ZmqBufferPool` (`src/pubsub/zmq_buffer_pool.cpp`)

The pub thread is the only one that calls `Acquire`; `Release` is called for the slot of a message,
once, by whatever thread ZMQ does this on. A step is one operation on an atomic. The message that
`Acquire` has got a slot for holds it until the store of its `Release`.

The flags mark the slots of the unreleased messages, and no two of these share one
(`State.Exclusive`). `next_` is a counter modulo `2 ^ 64`; as `kPoolSize` divides this, the probes
of a call go through all slots even when the counter wraps on the way (`mem_probes`). No other
thread takes slots, so a call that finds none has begun when all of them were taken
(`acquire_spec`). -/

namespace Sqc
open Concurrency

namespace ZmqBufferPool

def kPoolSize : Nat := 64

theorem poolCapacity_exp_lt : 6 < 64 := by decide

/-- `kPoolSize` as a power of two. -/
def poolCapacity : Capacity := ⟨6, poolCapacity_exp_lt⟩

theorem kPoolSize_pos : 0 < kPoolSize := by decide

/-- `next_.fetch_add(1) % kPoolSize`, from the value of `next_` before it. -/
def index (next : UInt64) : Fin kPoolSize := ⟨next.toNat % kPoolSize, Nat.mod_lt _ kPoolSize_pos⟩

/-- Where the pub thread stands in `Acquire`: before the named operation, or behind the call with
what it has returned. -/
inductive Acquiring where
  | outside
  | fetchAdd (attempt : Nat)
  | compareExchange (attempt : Nat) (idx : Fin kPoolSize)
  | returned (slot : Option (Fin kPoolSize))
deriving DecidableEq

def Acquiring.inCall : Acquiring → Bool
  | .fetchAdd _ | .compareExchange .. => true
  | .outside | .returned _ => false

/-- How far the `Release` of a message is. -/
inductive Phase where
  | held
  | releasing
  | released
deriving DecidableEq

/-- A message and the slot that `Acquire` has returned for it. -/
structure Message where
  slot : Fin kPoolSize
  phase : Phase
deriving DecidableEq

/-- The slot of a message that is not released. -/
def Message.held (m : Message) : Option (Fin kPoolSize) :=
  match m.phase with
  | .held | .releasing => some m.slot
  | .released => none

structure State where
  /-- `next_` -/
  next : UInt64
  /-- `pool_[i].in_use` -/
  inUse : Fin kPoolSize → Bool := fun _ => false
  acquiring : Acquiring := .outside
  /-- The messages of all calls that have returned a slot. -/
  messages : List Message := []

/-- The slot that message `i` holds. -/
def State.holds (s : State) (i : Nat) : Option (Fin kPoolSize) := s.messages[i]?.bind Message.held

inductive Action where
  /-- The pub thread calls `Acquire`. -/
  | acquire
  /-- The next operation of this call. -/
  | advance
  /-- `Release` is called for message `i`. -/
  | release (i : Nat)
  /-- The store of this `Release`. -/
  | store (i : Nat)
deriving DecidableEq

variable {s t u : State} {next : UInt64} {as bs : List Action}

/-- The head of the loop of `Acquire`. -/
def loop (attempt : Nat) : Acquiring :=
  if attempt < kPoolSize then .fetchAdd attempt else .returned none

def acquire (s : State) : Option State :=
  if s.acquiring.inCall then none else some { s with acquiring := loop 0 }

/-- The call returns `&pool_[idx]`. -/
def State.take (s : State) (idx : Fin kPoolSize) : State :=
  { s with
    inUse := Function.update s.inUse idx true
    acquiring := .returned (some idx)
    messages := s.messages ++ [⟨idx, .held⟩] }

def advance (s : State) : Option State :=
  match s.acquiring with
  | .fetchAdd attempt =>
    some { s with next := s.next + 1, acquiring := .compareExchange attempt (index s.next) }
  | .compareExchange attempt idx =>
    if s.inUse idx then some { s with acquiring := loop (attempt + 1) } else some (s.take idx)
  | .outside | .returned _ => none

def State.setPhase (s : State) (i : Nat) (slot : Fin kPoolSize) (phase : Phase) : State :=
  { s with messages := s.messages.set i ⟨slot, phase⟩ }

def release (s : State) (i : Nat) : Option State :=
  match s.messages[i]? with
  | some ⟨slot, .held⟩ => some (s.setPhase i slot .releasing)
  | _ => none

def store (s : State) (i : Nat) : Option State :=
  match s.messages[i]? with
  | some ⟨slot, .releasing⟩ =>
    some { s.setPhase i slot .released with inUse := Function.update s.inUse slot false }
  | _ => none

def step (s : State) : Action → Option State
  | .acquire => acquire s
  | .advance => advance s
  | .release i => release s i
  | .store i => store s i

/-- The pool with any value in `next_`. -/
def machine (next : UInt64) : Machine State Action where
  init := { next := next }
  step := step

/-- What a step does. -/
inductive Effect (s : State) : Action → State → Prop where
  | acquires (outside : s.acquiring.inCall = false) :
      Effect s .acquire { s with acquiring := loop 0 }
  | fetches {attempt} (thread : s.acquiring = .fetchAdd attempt) :
      Effect s .advance
        { s with next := s.next + 1, acquiring := .compareExchange attempt (index s.next) }
  | skips {attempt idx} (thread : s.acquiring = .compareExchange attempt idx)
      (inUse : s.inUse idx = true) :
      Effect s .advance { s with acquiring := loop (attempt + 1) }
  | takes {attempt idx} (thread : s.acquiring = .compareExchange attempt idx)
      (free : s.inUse idx = false) : Effect s .advance (s.take idx)
  | releases {i slot} (message : s.messages[i]? = some ⟨slot, .held⟩) :
      Effect s (.release i) (s.setPhase i slot .releasing)
  | stores {i slot} (message : s.messages[i]? = some ⟨slot, .releasing⟩) :
      Effect s (.store i)
        { s.setPhase i slot .released with inUse := Function.update s.inUse slot false }

theorem effect_of_step {a : Action} (h : step s a = some t) : Effect s a t := by
  cases a with
  | acquire =>
    simp only [step, acquire] at h
    split at h
    next => cases h
    next hout => cases h; exact .acquires (Bool.eq_false_iff.mpr hout)
  | advance =>
    simp only [step, advance] at h
    split at h
    next hthread => cases h; exact .fetches hthread
    next hthread =>
      split at h
      next hin => cases h; exact .skips hthread hin
      next hin => cases h; exact .takes hthread (Bool.eq_false_iff.mpr hin)
    next => cases h
    next => cases h
  | release i =>
    simp only [step, release] at h
    split at h
    next hmessage => cases h; exact .releases hmessage
    next => cases h
  | store i =>
    simp only [step, store] at h
    split at h
    next hmessage => cases h; exact .stores hmessage
    next => cases h

/-! ## Who holds the slots -/

/-- The flags mark the slots of the unreleased messages, and each has one message. -/
def State.Exclusive (s : State) : Prop := SlotPool.Exclusive s.inUse s.holds

theorem holds_take (s : State) (idx : Fin kPoolSize) :
    (s.take idx).holds = Function.update s.holds s.messages.length (some idx) := by
  funext i
  rw [Function.update_apply]
  show (s.messages ++ [⟨idx, .held⟩])[i]?.bind Message.held = _
  rcases Nat.lt_trichotomy i s.messages.length with hi | rfl | hi
  · rw [List.getElem?_append_left hi, if_neg (Nat.ne_of_lt hi)]
    rfl
  · rw [List.getElem?_concat_length, if_pos rfl]
    rfl
  · rw [List.getElem?_eq_none (by simp; omega), if_neg (Nat.ne_of_gt hi), State.holds,
      List.getElem?_eq_none (Nat.le_of_lt hi)]

theorem holds_setPhase {i : Nat} {slot : Fin kPoolSize} {phase : Phase} {m : Message}
    (h : s.messages[i]? = some m) :
    (s.setPhase i slot phase).holds = Function.update s.holds i (Message.held ⟨slot, phase⟩) := by
  funext j
  rw [Function.update_apply]
  show (s.messages.set i _)[j]?.bind Message.held = _
  rcases eq_or_ne j i with rfl | hj
  · rw [List.getElem?_set_self (List.getElem?_eq_some_iff.mp h).1, if_pos rfl]
    rfl
  · rw [List.getElem?_set_ne hj.symm, if_neg hj]
    rfl

theorem holds_eq_some {i : Nat} {slot : Fin kPoolSize} {phase : Phase}
    (h : s.messages[i]? = some ⟨slot, phase⟩) : s.holds i = Message.held ⟨slot, phase⟩ := by
  rw [State.holds, h]
  rfl

namespace State.Exclusive

theorem init (next : UInt64) : Exclusive { next := next } := SlotPool.Exclusive.empty

theorem take (h : Exclusive s) {idx : Fin kPoolSize} (hidx : s.inUse idx = false) :
    Exclusive (s.take idx) := by
  have hnew : s.holds s.messages.length = none := by
    rw [State.holds, List.getElem?_eq_none (Nat.le_refl _)]
    rfl
  have := SlotPool.Exclusive.take h hnew hidx
  rwa [← holds_take] at this

theorem releases (h : Exclusive s) {i : Nat} {slot : Fin kPoolSize}
    (hi : s.messages[i]? = some ⟨slot, .held⟩) : Exclusive (s.setPhase i slot .releasing) := by
  have hsame : (s.setPhase i slot .releasing).holds = s.holds := by
    rw [holds_setPhase hi, Function.update_eq_self_iff, holds_eq_some hi]
    rfl
  unfold Exclusive
  rw [hsame]
  exact h

theorem stores (h : Exclusive s) {i : Nat} {slot : Fin kPoolSize}
    (hi : s.messages[i]? = some ⟨slot, .releasing⟩) :
    Exclusive
      { s.setPhase i slot .released with inUse := Function.update s.inUse slot false } := by
  have := SlotPool.Exclusive.give h (holds_eq_some hi)
  rwa [show (none : Option (Fin kPoolSize)) = Message.held ⟨slot, .released⟩ from rfl,
    ← holds_setPhase hi] at this

theorem step {a : Action} (h : Exclusive s) (hs : ZmqBufferPool.step s a = some t) :
    Exclusive t := by
  cases effect_of_step hs with
  | acquires | fetches | skips => exact h
  | takes _ hfree => exact h.take hfree
  | releases hi => exact h.releases hi
  | stores hi => exact h.stores hi

theorem exec (h : Exclusive s) (hs : (machine next).exec s as = some t) : Exclusive t :=
  (machine next).exec_invariant (fun _ _ _ h _ hs => h.step hs) h (machine next).along_true hs

end State.Exclusive

/-! ## The probes of a call -/

/-- The slots of all messages so far, in the order in which `Acquire` has returned them. -/
def State.handedOut (s : State) : List (Fin kPoolSize) := s.messages.map Message.slot

def Acquiring.probed : Acquiring → Option (Fin kPoolSize)
  | .compareExchange _ idx => some idx
  | _ => none

/-- The slot that a step of the pub thread probes. -/
def probe : State × Action → Option (Fin kPoolSize)
  | (s, .advance) => s.acquiring.probed
  | _ => none

theorem probe_advance {place : Acquiring} (h : s.acquiring = place) :
    probe (s, .advance) = place.probed := h ▸ rfl

/-- The number of operations of the pub thread. -/
def operations (tr : List (State × Action)) : Nat := tr.countP (·.2 = .advance)

/-- The slots that a call which finds `next` in `next_` comes to with its first `k` probes. -/
def probes (next : UInt64) (k : Nat) : List (Fin kPoolSize) :=
  (List.range k).map fun i => index (next + .ofNat i)

theorem probes_succ (next : UInt64) (k : Nat) :
    probes next (k + 1) = probes next k ++ [index (next + .ofNat k)] := by
  rw [probes, List.range_succ, List.map_append]
  rfl

@[simp] theorem length_probes (next : UInt64) (k : Nat) : (probes next k).length = k := by
  rw [probes, List.length_map, List.length_range]

/-- A whole round of probes leaves out no slot, wherever it starts. -/
theorem mem_probes (next : UInt64) (slot : Fin kPoolSize) : slot ∈ probes next kPoolSize := by
  obtain ⟨i, hi, hslot⟩ := exists_word_window poolCapacity next (k := slot) slot.isLt
  exact List.mem_map.mpr ⟨i, List.mem_range.mpr hi, Fin.ext hslot⟩

/-- The first `k` probes of a call from `s` found their slots in use. They were in use when the call
began, too, because no other thread acquires slots. -/
structure Scanned (s : State) (k : Nat) (tr : List (State × Action)) : Prop where
  probes : tr.filterMap probe = probes s.next k
  inUse : ∀ p ∈ tr, ∀ slot, probe p = some slot →
    p.1.inUse slot = true ∧ s.inUse slot = true

namespace Scanned

variable {k : Nat} {tr : List (State × Action)} {p : State × Action}

theorem concat_of_none (h : Scanned s k tr) (hp : probe p = none) : Scanned s k (tr ++ [p]) where
  probes := by rw [List.filterMap_append, h.probes, List.filterMap_cons_none hp]; simp
  inUse := by
    rw [List.forall_mem_append, List.forall_mem_singleton]
    refine ⟨h.inUse, fun slot hslot => ?_⟩
    cases hp.symm.trans hslot

theorem concat_of_some (h : Scanned s k tr) (hp : probe p = some (index (s.next + .ofNat k)))
    (hin : p.1.inUse (index (s.next + .ofNat k)) = true)
    (hbefore : s.inUse (index (s.next + .ofNat k)) = true) : Scanned s (k + 1) (tr ++ [p]) where
  probes := by
    rw [List.filterMap_append, h.probes, List.filterMap_cons_some hp, List.filterMap_nil,
      probes_succ]
  inUse := by
    rw [List.forall_mem_append, List.forall_mem_singleton]
    refine ⟨h.inUse, fun slot hslot => ?_⟩
    cases hp.symm.trans hslot
    exact ⟨hin, hbefore⟩

/-- A call that has made all its probes has found every slot in use. -/
theorem exists_probe (h : Scanned s kPoolSize tr) (slot : Fin kPoolSize) :
    ∃ p ∈ tr, probe p = some slot ∧ p.1.inUse slot = true ∧ s.inUse slot = true := by
  have hmem : slot ∈ tr.filterMap probe := h.probes ▸ mem_probes s.next slot
  obtain ⟨p, hp, hslot⟩ := List.mem_filterMap.mp hmem
  exact ⟨p, hp, hslot, h.inUse p hp slot hslot⟩

end Scanned

/-- A call from `s` that has reached `u` and has made `k` probes, all of them in vain. -/
structure Scanning (s : State) (k : Nat) (tr : List (State × Action)) (u : State) : Prop where
  lt : k < kPoolSize
  handedOut : u.handedOut = s.handedOut
  free : ∀ slot, s.inUse slot = false → u.inUse slot = false
  scanned : Scanned s k tr

/-- Where a call from `s` stands when the steps `tr` have led to `u`. -/
inductive Call (s : State) (tr : List (State × Action)) (u : State) : Acquiring → Prop where
  | fetchAdd {k} (scanning : Scanning s k tr u) (next : u.next = s.next + .ofNat k)
      (operations : operations tr = 2 * k) : Call s tr u (.fetchAdd k)
  | compareExchange {k} (scanning : Scanning s k tr u) (next : u.next = s.next + .ofNat (k + 1))
      (operations : operations tr = 2 * k + 1) :
      Call s tr u (.compareExchange k (index (s.next + .ofNat k)))
  | exhausted (handedOut : u.handedOut = s.handedOut) (scanned : Scanned s kPoolSize tr) :
      Call s tr u (.returned none)
  | taken {slot} (handedOut : u.handedOut = s.handedOut ++ [slot])
      (found : ∃ p ∈ tr, probe p = some slot ∧ p.1.inUse slot = false)
      (length : (tr.filterMap probe).length ≤ kPoolSize) : Call s tr u (.returned (some slot))

theorem operations_concat (tr : List (State × Action)) (s : State) (a : Action) :
    operations (tr ++ [(s, a)]) = operations tr + if a = .advance then 1 else 0 := by
  rw [operations, List.countP_append, List.countP_singleton]
  simp only [decide_eq_true_eq]
  rfl

theorem handedOut_setPhase {i : Nat} {slot : Fin kPoolSize} {phase phase' : Phase}
    (h : s.messages[i]? = some ⟨slot, phase⟩) :
    (s.setPhase i slot phase').handedOut = s.handedOut := by
  show (s.messages.set i ⟨slot, phase'⟩).map Message.slot = _
  refine List.ext_getElem? fun j => ?_
  rw [List.getElem?_map, State.handedOut, List.getElem?_map]
  rcases eq_or_ne i j with rfl | hj
  · rw [List.getElem?_set_self (List.getElem?_eq_some_iff.mp h).1, h]
    rfl
  · rw [List.getElem?_set_ne hj]

namespace Call

variable {tr : List (State × Action)} {place : Acquiring}

theorem start (s : State) :
    Call s [(s, .acquire)] { s with acquiring := loop 0 } (loop 0) := by
  refine .fetchAdd ⟨kPoolSize_pos, rfl, fun _ => id, ⟨rfl, ?_⟩⟩ (UInt64.add_zero _).symm rfl
  rw [List.forall_mem_singleton]
  intro slot hslot
  cases hslot

/-- Other threads only clear flags. -/
theorem frame (h : Call s tr t place) {a : Action} (ha : a ≠ .advance) (hnext : u.next = t.next)
    (hout : u.handedOut = t.handedOut)
    (hfree : ∀ slot, t.inUse slot = false → u.inUse slot = false) :
    Call s (tr ++ [(t, a)]) u place := by
  have hprobe : probe (t, a) = none := by cases a <;> first | rfl | exact absurd rfl ha
  have hops : operations (tr ++ [(t, a)]) = operations tr := by
    rw [operations_concat, if_neg ha]
    rfl
  have hscanning {k : Nat} (h : Scanning s k tr t) : Scanning s k (tr ++ [(t, a)]) u :=
    ⟨h.lt, hout.trans h.handedOut, fun slot hslot => hfree slot (h.free slot hslot),
      h.scanned.concat_of_none hprobe⟩
  cases h with
  | fetchAdd h next ops => exact .fetchAdd (hscanning h) (hnext.trans next) (hops.trans ops)
  | compareExchange h next ops =>
    exact .compareExchange (hscanning h) (hnext.trans next) (hops.trans ops)
  | exhausted handedOut scanned =>
    exact .exhausted (hout.trans handedOut) (scanned.concat_of_none hprobe)
  | taken handedOut found length =>
    obtain ⟨p, hp, hfound⟩ := found
    refine .taken (hout.trans handedOut) ⟨p, List.mem_append_left _ hp, hfound⟩ ?_
    rwa [List.filterMap_append, List.filterMap_cons_none hprobe, List.filterMap_nil,
      List.append_nil]

theorem fetches {k : Nat} (h : Call s tr t (.fetchAdd k)) (ht : t.acquiring = .fetchAdd k) :
    Call s (tr ++ [(t, .advance)])
      { t with next := t.next + 1, acquiring := .compareExchange k (index t.next) }
      (.compareExchange k (index t.next)) := by
  cases h with
  | fetchAdd h next ops =>
    have hprobe : probe (t, .advance) = none := probe_advance ht
    rw [next]
    refine .compareExchange ⟨h.lt, h.handedOut, h.free, h.scanned.concat_of_none hprobe⟩ ?_ ?_
    · show s.next + .ofNat k + 1 = _
      rw [UInt64.add_assoc, word_succ]
    · rw [operations_concat, ops, if_pos rfl]

theorem skips {k : Nat} {idx : Fin kPoolSize} (h : Call s tr t (.compareExchange k idx))
    (ht : t.acquiring = .compareExchange k idx) (hin : t.inUse idx = true) :
    Call s (tr ++ [(t, .advance)]) { t with acquiring := loop (k + 1) } (loop (k + 1)) := by
  cases h with
  | compareExchange h next ops =>
    have hprobe : probe (t, .advance) = some (index (s.next + .ofNat k)) := probe_advance ht
    -- a flag that was clear at the beginning of the call would still be
    have hbefore : s.inUse (index (s.next + .ofNat k)) = true := by
      by_contra hclear
      rw [h.free _ (Bool.eq_false_iff.mpr hclear)] at hin
      cases hin
    have hscanned := h.scanned.concat_of_some hprobe hin hbefore
    rw [loop]
    split
    next hlt =>
      refine .fetchAdd ⟨hlt, h.handedOut, h.free, hscanned⟩ next ?_
      rw [operations_concat, ops, if_pos rfl]
      omega
    next hge =>
      have hk : k + 1 = kPoolSize := Nat.le_antisymm h.lt (Nat.not_lt.mp hge)
      exact .exhausted h.handedOut (hk ▸ hscanned)

theorem takes {k : Nat} {idx : Fin kPoolSize} (h : Call s tr t (.compareExchange k idx))
    (ht : t.acquiring = .compareExchange k idx) (hfree : t.inUse idx = false) :
    Call s (tr ++ [(t, .advance)]) (t.take idx) (.returned (some idx)) := by
  cases h with
  | compareExchange h next ops =>
    have hprobe : probe (t, .advance) = some (index (s.next + .ofNat k)) := probe_advance ht
    refine .taken ?_ ⟨_, List.mem_append_right _ (List.mem_singleton_self _), hprobe, hfree⟩ ?_
    · show (t.messages ++ [_]).map Message.slot = _
      rw [List.map_append, ← h.handedOut]
      rfl
    · rw [List.filterMap_append, h.scanned.probes, List.filterMap_cons_some hprobe]
      simpa using Nat.succ_le_of_lt h.lt

theorem step {a : Action} (h : Call s tr t t.acquiring) (ha : a ≠ .acquire)
    (hs : ZmqBufferPool.step t a = some u) : Call s (tr ++ [(t, a)]) u u.acquiring := by
  cases effect_of_step hs with
  | acquires => exact absurd rfl ha
  | fetches ht => exact fetches (ht ▸ h) ht
  | skips ht hin => exact skips (ht ▸ h) ht hin
  | takes ht hfree => exact takes (ht ▸ h) ht hfree
  | releases hi => exact h.frame (fun h => by cases h) rfl (handedOut_setPhase hi) fun _ => id
  | stores hi =>
    refine h.frame (fun h => by cases h) rfl (handedOut_setPhase hi) fun slot hslot => ?_
    show Function.update t.inUse _ false slot = false
    rw [Function.update_apply, hslot, ite_self]

/-- A call in progress has had fewer than two operations for each slot. -/
theorem operations_lt (h : Call s tr u place) (hcall : place.inCall = true) :
    operations tr < 2 * kPoolSize := by
  cases h with
  | fetchAdd h _ ops | compareExchange h _ ops =>
    have := h.lt
    omega
  | exhausted | taken => cases hcall

theorem length_probes_le (h : Call s tr u place) : (tr.filterMap probe).length ≤ kPoolSize := by
  cases h with
  | fetchAdd h | compareExchange h =>
    rw [h.scanned.probes, length_probes]
    exact Nat.le_of_lt h.lt
  | exhausted _ h => rw [h.probes, length_probes]
  | taken _ _ length => exact length

end Call

/-! ## `Acquire` -/

theorem call_of_exec (ht : (machine next).exec s (.acquire :: bs) = some t)
    (hone : .acquire ∉ bs) :
    Call s ((machine next).trace s (.acquire :: bs)) t t.acquiring := by
  obtain ⟨u, hu, ht⟩ := (machine next).exec_cons_iff.mp ht
  rw [(machine next).trace_cons hu]
  have heffect : Effect s .acquire u := effect_of_step hu
  cases heffect with
  | acquires =>
    have hstep : ∀ tr (t : State) (a : Action) (u : State), Call s tr t t.acquiring →
        a ≠ .acquire → (machine next).step t a = some u →
          Call s (tr ++ [(t, a)]) u u.acquiring := fun _ _ _ _ h ha hs => h.step ha hs
    have hothers : ∀ a ∈ bs, a ≠ .acquire := fun a ha heq => hone (heq ▸ ha)
    exact (machine next).exec_trace hstep (Call.start s)
      ((machine next).along_of_forall hothers) ht

/-- The pub thread never waits. -/
theorem exists_advance (h : s.acquiring.inCall = true) : ∃ t, step s .advance = some t := by
  simp only [step, advance]
  split
  next => exact ⟨_, rfl⟩
  next => split <;> exact ⟨_, rfl⟩
  next hout => rw [hout] at h; cases h
  next hret => rw [hret] at h; cases h

/-- A call of `Acquire` in `s`, when the steps `tr` of all threads from the call on have led to
`t`. -/
structure AcquireSpec (s t : State) (tr : List (State × Action)) : Prop where
  /-- No two unreleased messages share a slot. -/
  unique : ∀ i j slot, t.holds i = some slot → t.holds j = some slot → i = j
  /-- The slot that the call returns goes to a new message. When it was probed, no unreleased
  message held it. -/
  returned : ∀ slot, t.acquiring = .returned (some slot) →
    t.handedOut = s.handedOut ++ [slot] ∧
      ∃ p ∈ tr, probe p = some slot ∧ ∀ i, p.1.holds i ≠ some slot
  probes : (tr.filterMap probe).length ≤ kPoolSize
  /-- A call in progress can always go on, and `kPoolSize` rounds of two operations end it. -/
  progress : t.acquiring.inCall = true →
    operations tr < 2 * kPoolSize ∧ ∃ u, step t .advance = some u
  /-- When the call returns null it has probed every slot, each of them while a message held it. -/
  exhausted : t.acquiring = .returned none →
    (∀ slot, slot ∈ tr.filterMap probe) ∧
      ∀ p ∈ tr, ∀ slot, probe p = some slot →
        p.1.inUse slot = true ∧ ∃ i, p.1.holds i = some slot
  /-- A slot that stays free is enough for the call to return one. -/
  succeeds : ∀ slot, (∀ p ∈ tr, ∀ i, p.1.holds i ≠ some slot) → t.acquiring.inCall = false →
    ∃ slot', t.acquiring = .returned (some slot')

theorem Call.returned_of_inCall_eq_false {tr : List (State × Action)} {place : Acquiring}
    (h : Call s tr t place) (hdone : place.inCall = false) :
    (∃ slot, place = .returned (some slot)) ∨ place = .returned none ∧ Scanned s kPoolSize tr := by
  cases h with
  | fetchAdd | compareExchange => cases hdone
  | exhausted _ scanned => exact .inr ⟨rfl, scanned⟩
  | taken => exact .inl ⟨_, rfl⟩

/-- For every value that `next_` starts with, every run of the pool and every call of `Acquire` in
it. -/
theorem acquire_spec (next : UInt64) (as bs : List Action) (s t : State)
    (hs : (machine next).exec (machine next).init as = some s)
    (ht : (machine next).exec s (.acquire :: bs) = some t) (hone : .acquire ∉ bs) :
    AcquireSpec s t ((machine next).trace s (.acquire :: bs)) := by
  have hexcl : s.Exclusive := (State.Exclusive.init next).exec hs
  have hexclt : t.Exclusive := hexcl.exec ht
  have hexcltr : ∀ p ∈ (machine next).trace s (.acquire :: bs), p.1.Exclusive :=
    (machine next).trace_invariant (fun _ _ _ h hs => h.step hs) hexcl
  have hcall := call_of_exec ht hone
  refine ⟨fun i j slot => hexclt.unique, fun slot hret => ?_, hcall.length_probes_le,
    fun hin => ⟨hcall.operations_lt hin, exists_advance hin⟩, fun hret => ?_,
    fun slot hfree hdone => ?_⟩
  · rw [hret] at hcall
    cases hcall with
    | taken handedOut found =>
      obtain ⟨p, hp, hprobe, hclear⟩ := found
      exact ⟨handedOut, p, hp, hprobe, (hexcltr p hp).holds_ne hclear⟩
  · rw [hret] at hcall
    cases hcall with
    | exhausted _ scanned =>
      refine ⟨fun slot => scanned.probes ▸ mem_probes s.next slot, fun p hp slot hslot => ?_⟩
      have hin := (scanned.inUse p hp slot hslot).1
      exact ⟨hin, (hexcltr p hp).inUse_iff.mp hin⟩
  · rcases hcall.returned_of_inCall_eq_false hdone with hret | ⟨-, scanned⟩
    · exact hret
    · obtain ⟨p, hp, -, hin, -⟩ := scanned.exists_probe slot
      obtain ⟨i, hi⟩ := (hexcltr p hp).inUse_iff.mp hin
      exact absurd hi (hfree p hp i)

/-- The last value before `next_` wraps. -/
def allOnes : UInt64 := 0xFFFFFFFFFFFFFFFF

def fillPool : List Action := (List.replicate kPoolSize [.acquire, .advance, .advance]).flatten

/-- The probes of slots 63 and 0 fail. Then the message of slot 1 is released. -/
def releaseOnTheWay : List Action :=
  [.advance, .advance, .release 2, .advance, .advance, .store 2, .advance, .advance]

/-- All slots are taken when the call begins, and it returns one that is released before its third
probe. -/
theorem acquire_released_slot :
    ∃ s t, (machine allOnes).exec (machine allOnes).init fillPool = some s ∧
      (∀ slot, s.inUse slot = true) ∧
      (machine allOnes).exec s (.acquire :: releaseOnTheWay) = some t ∧
      t.acquiring = .returned (some (index 1)) ∧
      AcquireSpec s t ((machine allOnes).trace s (.acquire :: releaseOnTheWay)) := by
  have hfill : ((machine allOnes).exec (machine allOnes).init fillPool).map
      (fun s => (List.finRange kPoolSize).all s.inUse) = some true := by decide +kernel
  obtain ⟨s, hs, hall⟩ := Option.map_eq_some_iff.mp hfill
  have hcall : ((machine allOnes).exec (machine allOnes).init
      (fillPool ++ .acquire :: releaseOnTheWay)).map State.acquiring =
        some (.returned (some (index 1))) := by decide +kernel
  rw [Machine.exec_append, hs, Option.bind_some] at hcall
  obtain ⟨t, ht, hret⟩ := Option.map_eq_some_iff.mp hcall
  refine ⟨s, t, hs, fun slot => ?_, ht, hret, ?_⟩
  · exact List.all_eq_true.mp hall slot (List.mem_finRange slot)
  · exact acquire_spec allOnes fillPool releaseOnTheWay s t hs ht (by decide)

end ZmqBufferPool

end Sqc
