import SmartQuantCollector.Exchange.ShardQueue

/-! # What `ShardQueue` delivers

Two things can go wrong with a message between `Push` and `TryPop`. The ring loses messages when
two threads push at once or when the counters wrap; `RingOk` excludes both. And `Push` loses the
heap buffer of its message when an attempt fails: the retry stores a message with the size and the
metadata of the original and the inline bytes in place of the payload
(`full_ring_destroys_heap_payload`). As long as only messages with an inline payload meet a full
ring, what comes out is what went in (`deliversWhole_of_keepsPayload`). -/

namespace Sqc
open Concurrency

namespace ShardQueue

variable {ι : Type*} {c : Capacity} {s t : State ι}

/-- No attempt starts inside another thread's attempt. -/
def Exclusive (s : State ι) : Action ι → Prop
  | .tryPush .. | .push .. | .retry _ => RingQueue.Exclusive s.ring
  | _ => True

/-- The write counter does not wrap. -/
def NoWrap (c : Capacity) (s : State ι) : Action ι → Prop
  | .produce i => RingQueue.pushResult (ring c) s.ring i = some true →
    s.ring.accepted.length + 1 < 2 ^ 64
  | _ => True

/-- The argument of the `Push` in progress. -/
def Caller.pushing : Caller → Option RawMessage
  | .push msg _ => some msg
  | _ => none

/-- An attempt of `Push` that finds the ring full is for a message without a heap buffer. -/
def KeepsPayload (c : Capacity) (s : State ι) : Action ι → Prop
  | .produce i => RingQueue.pushResult (ring c) s.ring i = some false →
    ∀ msg ∈ (s.callers i).pushing, msg.heap = none
  | _ => True

instance : ∀ a, Decidable (NoWrap c s a)
  | .produce _ => inferInstanceAs (Decidable (_ = _ → _ < _))
  | .tryPush .. | .push .. | .retry _ | .consume => isTrue trivial

instance : ∀ a, Decidable (KeepsPayload c s a)
  | .produce i => inferInstanceAs (Decidable (_ = _ → ∀ msg ∈ (s.callers i).pushing, _))
  | .tryPush .. | .push .. | .retry _ | .consume => isTrue trivial

/-! ## The steps -/

section
variable [DecidableEq ι]

/-- An attempt of thread `i` begins. -/
def State.begin (s : State ι) (i : ι) (r : RingQueue.State ι RawMessage) (k : Caller) : State ι :=
  { s with ring := r, callers := Function.update s.callers i k }

/-- What a step does. -/
inductive StepEffect (c : Capacity) (s : State ι) : Action ι → State ι → Prop where
  | tryPush {i msg r} (ring : RingQueue.tryPush s.ring i msg = some r) :
      StepEffect c s (.tryPush i msg) (s.begin i r (.tryPush msg))
  | push {i msg r} (ring : RingQueue.tryPush s.ring i msg = some r) :
      StepEffect c s (.push i msg) (s.begin i r (.push msg msg.movedFrom))
  | retry {i msg param r} (caller : s.callers i = .push msg param)
      (ring : RingQueue.tryPush s.ring i param = some r) :
      StepEffect c s (.retry i) (s.begin i r (.push msg param.movedFrom))
  | produce {i t} (produce : produce c s i = some t) : StepEffect c s (.produce i) t
  | consume : StepEffect c s .consume { s with ring := RingQueue.consume (ring c) s.ring }

theorem stepEffect {a : Action ι} (hs : step c s a = some t) : StepEffect c s a t := by
  cases a with
  | tryPush i msg =>
    simp only [step] at hs
    split at hs
    next =>
      obtain ⟨r, hr, rfl⟩ := Option.map_eq_some_iff.mp hs
      exact .tryPush hr
    next => cases hs
  | push i msg =>
    simp only [step] at hs
    split at hs
    next =>
      obtain ⟨r, hr, rfl⟩ := Option.map_eq_some_iff.mp hs
      exact .push hr
    next => cases hs
  | retry i =>
    simp only [step] at hs
    split at hs
    next hk =>
      obtain ⟨r, hr, rfl⟩ := Option.map_eq_some_iff.mp hs
      exact .retry hk hr
    next => cases hs
  | produce i => exact .produce hs
  | consume => cases hs; exact .consume

end

/-! ## The ring -/

structure RingOk (c : Capacity) (s : State ι) : Prop where
  inv : RingQueue.Inv (ring c) s.ring
  accepted_lt : s.ring.accepted.length < 2 ^ 64

theorem RingOk.init : RingOk c (init ι) := ⟨.init, Nat.two_pow_pos 64⟩

/-- An empty ring is taken for empty, also when the counters have wrapped. -/
theorem empty_of_length_eq (h : RingQueue.Inv (ring c) s.ring)
    (heq : s.ring.popped.length = s.ring.accepted.length) :
    (ring c).empty s.ring.readPos s.ring.writePos = true := by
  rw [h.writePos_eq, h.readPos_eq, heq]
  exact decide_eq_true (UInt64.le_refl _)

section
variable [DecidableEq ι]

theorem produce_ring {i : ι} (h : produce c s i = some t) :
    RingQueue.produce (ring c) s.ring i = some t.ring := by
  obtain ⟨r, hr, rfl⟩ := Option.map_eq_some_iff.mp h
  rw [hr]
  split <;> rfl

/-- The step lemma of the ring. -/
theorem inv_step (h : RingQueue.Inv (ring c) s.ring) {a : Action ι} (hex : Exclusive s a)
    (hs : step c s a = some t) : RingQueue.Inv (ring c) t.ring := by
  cases stepEffect hs with
  | tryPush hr => exact h.tryPush hex hr
  | push hr => exact h.tryPush hex hr
  | retry _ hr => exact h.tryPush hex hr
  | produce hs => exact h.produce (lawful c) (produce_ring hs)
  | consume => exact h.consume_of (empty_of_length_eq h)

theorem RingOk.step (h : RingOk c s) {a : Action ι} (hex : Exclusive s a) (hw : NoWrap c s a)
    (hs : step c s a = some t) : RingOk c t := by
  refine ⟨inv_step h.inv hex hs, ?_⟩
  have hlt := h.accepted_lt
  cases stepEffect hs with
  | tryPush hr | push hr | retry _ hr =>
    obtain ⟨-, rfl⟩ := RingQueue.tryPush_eq_some hr
    exact hlt
  | produce hs =>
    obtain ⟨item, p, -, -, hcases⟩ := RingQueue.produce_cases (produce_ring hs)
    rcases hcases with ⟨hres, -, hacc⟩ | ⟨-, -, hacc⟩ | ⟨-, -, hacc⟩
    · rw [hacc, List.length_append]
      exact hw hres
    · rwa [hacc]
    · rwa [hacc]
  | consume =>
    show (RingQueue.consume (ring c) s.ring).accepted.length < 2 ^ 64
    rwa [(RingQueue.consume_accepted s.ring).1]

end

/-! ## The messages -/

/-- The message that an attempt is about to store is the argument of the call. Between two attempts
of `Push` it is the parameter. -/
def CallerOk (p : RingQueue.Producer RawMessage) : Caller → Prop
  | .outside => p.item = none
  | .tryPush msg => p.item = some msg
  | .push msg param =>
    p.item = some msg ∧ param = msg.movedFrom ∨ p.item = none ∧ param = msg

structure Whole (s : State ι) : Prop where
  pushed_eq : s.pushed = s.ring.accepted
  caller : ∀ i, CallerOk (s.ring.producers i) (s.callers i)

namespace Whole

theorem init : Whole (init ι) where
  pushed_eq := rfl
  caller _ := rfl

variable [DecidableEq ι]

/-- An attempt that starts with the message of its call. -/
theorem begin (h : Whole s) {i : ι} {item : RawMessage} {k : Caller}
    {r : RingQueue.State ι RawMessage} (hr : RingQueue.tryPush s.ring i item = some r)
    (hk : ∀ w, CallerOk (.loadRead item w) k) : Whole (s.begin i r k) := by
  obtain ⟨-, rfl⟩ := RingQueue.tryPush_eq_some hr
  refine ⟨h.pushed_eq, fun j => ?_⟩
  show CallerOk (Function.update s.ring.producers i _ j) (Function.update s.callers i k j)
  rcases eq_or_ne j i with rfl | hj
  · rw [Function.update_self, Function.update_self]
    exact hk _
  · rw [Function.update_of_ne hj, Function.update_of_ne hj]
    exact h.caller j

theorem produce (h : Whole s) {i : ι} (hp : KeepsPayload c s (.produce i))
    (hs : produce c s i = some t) : Whole t := by
  obtain ⟨r, hr, rfl⟩ := Option.map_eq_some_iff.mp hs
  obtain ⟨item, p, hitem, hprod, hcases⟩ := RingQueue.produce_cases hr
  have hi := h.caller i
  -- only thread `i` and the history change
  have hnew : ∀ {k msgs}, msgs = r.accepted → CallerOk p k →
      Whole { ring := r, callers := Function.update s.callers i k, pushed := msgs } := by
    intro k msgs hmsgs hk
    refine ⟨hmsgs, fun j => ?_⟩
    show CallerOk (r.producers j) (Function.update s.callers i k j)
    rw [hprod]
    rcases eq_or_ne j i with rfl | hj
    · rw [Function.update_self, Function.update_self]
      exact hk
    · rw [Function.update_of_ne hj, Function.update_of_ne hj]
      exact h.caller j
  have hsame : r.accepted = s.ring.accepted → CallerOk p (s.callers i) →
      Whole { s with ring := r } := by
    intro hacc hk
    have := hnew (h.pushed_eq.trans hacc.symm) hk
    rwa [Function.update_eq_self] at this
  rcases hcases with ⟨hres, rfl, hacc⟩ | ⟨hres, rfl, hacc⟩ | ⟨hres, hpi, hacc⟩
  · cases hk : s.callers i with
    | outside =>
      rw [hk] at hi
      cases hitem.symm.trans hi
    | tryPush msg =>
      rw [hk] at hi
      cases hitem.symm.trans hi
      simp only [hres]
      exact hnew (by rw [h.pushed_eq, hacc]) rfl
    | push msg param =>
      rw [hk] at hi
      rcases hi with ⟨hi, -⟩ | ⟨hi, -⟩
      · cases hitem.symm.trans hi
        simp only [hres]
        exact hnew (by rw [h.pushed_eq, hacc]) rfl
      · cases hitem.symm.trans hi
  · cases hk : s.callers i with
    | outside =>
      rw [hk] at hi
      cases hitem.symm.trans hi
    | tryPush msg =>
      simp only [hres]
      exact hnew (h.pushed_eq.trans hacc.symm) rfl
    | push msg param =>
      rw [hk] at hi
      simp only [hres]
      refine hsame hacc ?_
      rw [hk]
      rcases hi with ⟨-, rfl⟩ | ⟨hi, -⟩
      · -- the heap buffer is gone, so there must have been none
        exact .inr ⟨rfl, RawMessage.movedFrom_of_inline (hp hres _ (by rw [hk]; rfl))⟩
      · cases hitem.symm.trans hi
  · have hok : CallerOk p (s.callers i) := by
      cases hk : s.callers i with
      | outside | tryPush msg | push msg param =>
        rw [hk] at hi
        simpa only [CallerOk, hpi, hitem] using hi
    simp only [hres]
    exact hsame hacc hok

theorem step (h : Whole s) {a : Action ι} (hp : KeepsPayload c s a)
    (hs : step c s a = some t) : Whole t := by
  cases stepEffect hs with
  | tryPush hr => exact h.begin hr fun _ => rfl
  | push hr => exact h.begin hr fun _ => .inl ⟨rfl, rfl⟩
  | @retry i msg param r hk hr =>
    have hi := h.caller i
    rw [hk, (RingQueue.tryPush_eq_some hr).1] at hi
    rcases hi with ⟨hi, -⟩ | ⟨-, rfl⟩
    · cases hi
    · exact h.begin hr fun _ => .inl ⟨rfl, rfl⟩
  | produce hs => exact h.produce hp hs
  | consume =>
    obtain ⟨hacc, hprod⟩ := RingQueue.consume_accepted (q := ring c) s.ring
    refine ⟨h.pushed_eq.trans hacc.symm, fun i => ?_⟩
    show CallerOk ((RingQueue.consume (ring c) s.ring).producers i) (s.callers i)
    rw [hprod]
    exact h.caller i

end Whole

/-! ## Delivery -/

variable [DecidableEq ι]

/-- Messages come out as they were when they were pushed, in order. -/
structure DeliversWhole (c : Capacity) (s : State ι) : Prop where
  popped : s.ring.popped <+: s.pushed
  /-- Popping alone, the consumer gets every message pushed. -/
  drains : s.ring.consumer = .idle → ∃ n t, (machine ι c).exec s (consumerRun n) = some t ∧
    t.ring.popped = s.pushed

theorem exec_consumerRun (n : Nat) (s : State ι) :
    (machine ι c).exec s (consumerRun n) =
      some { s with ring := (RingQueue.consume (ring c))^[n] s.ring } := by
  have h := Machine.exec_replicate (machine ι c) (a := .consume)
    (f := fun s => { s with ring := RingQueue.consume (ring c) s.ring }) (fun _ => rfl) n s
  refine h.trans (congrArg some ?_)
  clear h
  induction n with
  | zero => rfl
  | succ n ih => rw [Function.iterate_succ_apply', ih, Function.iterate_succ_apply']

theorem deliversWhole_of_inv (hr : RingOk c s) (hw : Whole s) : DeliversWhole c s where
  popped := hw.pushed_eq ▸ hr.inv.fifo
  drains hk := by
    obtain ⟨n, r, hn, -, hpop, -⟩ := hr.inv.drain (lawful c) hr.accepted_lt hk
    exact ⟨4 * n, _, exec_consumerRun _ s, by rw [hw.pushed_eq, ← hpop, ← hn]⟩

/-- With one pushing thread an attempt never starts inside another. -/
theorem exclusive_of_subsingleton [Subsingleton ι] {a : Action ι} (hs : step c s a = some t) :
    Exclusive s a := by
  have hidle : ∀ {i item r}, RingQueue.tryPush s.ring i item = some r →
      RingQueue.Exclusive s.ring := by
    intro i item r hr j
    rw [Subsingleton.elim j i]
    exact (RingQueue.tryPush_eq_some hr).1
  cases stepEffect hs with
  | tryPush hr => exact hidle hr
  | push hr => exact hidle hr
  | retry _ hr => exact hidle hr
  | produce => trivial
  | consume => trivial

/-- In every run with one pushing thread in which no attempt for a message with a heap buffer finds
the ring full and fewer than `2 ^ 64` messages are pushed, messages are delivered whole. -/
theorem deliversWhole_of_keepsPayload (c : Capacity) (as : List (Action Unit)) (s : State Unit)
    (hs : (machine Unit c).exec (init Unit) as = some s)
    (hk : (machine Unit c).Along (fun s a => KeepsPayload c s a ∧ NoWrap c s a) (init Unit) as) :
    DeliversWhole c s := by
  have hinv : RingOk c s ∧ Whole s := by
    refine (machine Unit c).exec_invariant (I := fun s => RingOk c s ∧ Whole s) ?_
      ⟨.init, .init⟩ hk hs
    rintro u a v ⟨hr, hw⟩ ⟨hp, hn⟩ hv
    exact ⟨hr.step (exclusive_of_subsingleton hv) hn hv, hw.step hp hv⟩
  exact deliversWhole_of_inv hinv.1 hinv.2

/-! ### A ring with one slot -/

def oneSlot : Capacity := ⟨0, by decide⟩

/-- A message as `OnMessage` builds it from `n` bytes, with the padding of 64 bytes that simdjson
asks for. -/
def message (n : Nat) : RawMessage :=
  RawMessage.ofPayload 64 default (List.replicate n 7) 1 0 (Vector.replicate 32 0) .binanceSpot
    .tick

/-- Two pushes, the second of which finds the ring full once, and both pops. -/
def contended (first second : RawMessage) : List (Action Unit) :=
  [.push () first, .produce (), .produce (), .produce (), .push () second, .produce (),
    .consume, .consume, .consume, .consume, .retry (), .produce (), .produce (), .produce (),
    .consume, .consume, .consume, .consume]

/-- The second message has 20000 bytes. What `TryPop` returns for it has the size of the original
and a buffer that is shorter than this size. -/
theorem full_ring_destroys_heap_payload :
    ∃ s, (machine Unit oneSlot).exec (init Unit) (contended (message 1) (message 20000)) = some s ∧
      s.pushed = [message 1, message 20000] ∧
      s.ring.popped = [message 1, (message 20000).movedFrom] ∧
      (message 20000).movedFrom.size = 20000 ∧
      (message 20000).movedFrom.buffer.length = RawMessage.kInlineSize ∧
      ¬ DeliversWhole oneSlot s := by
  refine ⟨_, rfl, rfl, rfl, List.length_replicate, ?_, fun h => ?_⟩
  · rw [RawMessage.buffer_movedFrom]
    exact (message 20000).inlineBuf_length
  · have heq : (message 20000).movedFrom = message 20000 :=
      (List.cons_prefix_cons.mp (List.cons_prefix_cons.mp h.popped).2).1
    have hheap : (message 20000).heap = none := congrArg RawMessage.heap heq.symm
    rw [message, RawMessage.heap_ofPayload, List.length_replicate] at hheap
    exact absurd hheap (by decide)

theorem deliversWhole_inline_contended :
    ∃ s, (machine Unit oneSlot).exec (init Unit) (contended (message 1) (message 2)) = some s ∧
      s.ring.popped = [message 1, message 2] ∧ DeliversWhole oneSlot s := by
  have hinline : (message 2).heap = none := by
    rw [message, RawMessage.heap_ofPayload, List.length_replicate]
    decide
  have hpopped : [message 1, (message 2).movedFrom] = [message 1, message 2] := by
    rw [RawMessage.movedFrom_of_inline hinline]
  exact ⟨_, rfl, hpopped, deliversWhole_of_keepsPayload oneSlot
    (contended (message 1) (message 2)) _ rfl (by decide)⟩

end ShardQueue

end Sqc
