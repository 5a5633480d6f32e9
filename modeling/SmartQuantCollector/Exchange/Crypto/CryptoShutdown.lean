import SmartQuantCollector.Exchange.ShardQueueDelivery

/-! # Shutting down the crypto subsystem

`main` stops the network (`StopNetwork`), pushes a poison pill into every `ShardQueue` from the main
thread (`DrainQueues`) and only then joins the network thread and the parser workers (`Shutdown`).
`io_context::stop` does not wait for a handler that is already running, so the network thread may
still be inside `OnMessage` when the main thread pushes: a second producer for a queue that
`shard_queue.h` reserves to the network thread. Both pushes can then store the same slot, and the
worker never sees its pill (`overlapping_pill_is_lost`). When the network thread is outside the
queue by the time its pill is pushed, the pill comes last and ends the worker
(`stops_of_pillAlone`). -/

namespace Sqc
open Concurrency

namespace ShardQueue

variable {ι : Type*} {c : Capacity} {s t : State ι} {P : RawMessage → Prop}

/-- The thread is outside `Push`, or in a `Push` of a message with property `P`. -/
def Carries (P : RawMessage → Prop) (p : RingQueue.Producer RawMessage) : Caller → Prop
  | .outside => p = .idle
  | .tryPush _ => False
  | .push _ param => P param ∧ ∀ m ∈ p.item, P m

/-- What an operation of a `Push` on thread `i` does. The push returns when its message is
accepted. -/
structure PushStep (P : RawMessage → Prop) (i : ι) (s t : State ι) : Prop where
  carries : Carries P (t.ring.producers i) (t.callers i)
  others : ∀ j ≠ i, t.ring.producers j = s.ring.producers j ∧ t.callers j = s.callers j
  consumer : t.ring.consumer = s.ring.consumer ∧ t.ring.popped = s.ring.popped
  accepted : t.callers i = .outside ∧ (∃ m, P m ∧ t.ring.accepted = s.ring.accepted ++ [m]) ∨
    t.callers i ≠ .outside ∧ t.ring.accepted = s.ring.accepted

section
variable [DecidableEq ι]

theorem PushStep.attempt {i : ι} {msg param : RawMessage} {r : RingQueue.State ι RawMessage}
    (hP : P param) (hP' : P param.movedFrom) (hr : RingQueue.tryPush s.ring i param = some r) :
    PushStep P i s (s.begin i r (.push msg param.movedFrom)) := by
  obtain ⟨-, rfl⟩ := RingQueue.tryPush_eq_some hr
  refine ⟨?_, fun j hj => ⟨Function.update_of_ne hj _ _, Function.update_of_ne hj _ _⟩, ⟨rfl, rfl⟩,
    .inr ⟨?_, rfl⟩⟩
  · show Carries P (Function.update s.ring.producers i _ i) (Function.update s.callers i _ i)
    rw [Function.update_self, Function.update_self]
    refine ⟨hP', fun m hm => ?_⟩
    cases hm
    exact hP
  · show Function.update s.callers i _ i ≠ _
    rw [Function.update_self]
    nofun

theorem PushStep.produce {i : ι} (h : Carries P (s.ring.producers i) (s.callers i))
    (hs : produce c s i = some t) : PushStep P i s t := by
  obtain ⟨r, hr, rfl⟩ := Option.map_eq_some_iff.mp hs
  obtain ⟨item, p, hitem, hprod, hcases⟩ := RingQueue.produce_cases hr
  obtain ⟨hcons, hpop⟩ := RingQueue.produce_consumer hr
  cases hk : s.callers i with
  | outside =>
    rw [hk] at h
    rw [show s.ring.producers i = .idle from h] at hitem
    cases hitem
  | tryPush msg =>
    rw [hk] at h
    exact h.elim
  | push msg param =>
    rw [hk] at h
    obtain ⟨hparam, hP⟩ := h
    have hsame : (∀ m ∈ p.item, P m) → r.accepted = s.ring.accepted →
        PushStep P i s { s with ring := r } := by
      intro hp hacc
      refine ⟨?_, fun j hj => ⟨?_, rfl⟩, ⟨hcons, hpop⟩, .inr ⟨by rw [hk]; nofun, hacc⟩⟩
      · show Carries P (r.producers i) (s.callers i)
        rw [hprod, Function.update_self, hk]
        exact ⟨hparam, hp⟩
      · show r.producers j = s.ring.producers j
        rw [hprod, Function.update_of_ne hj]
    rcases hcases with ⟨hres, rfl, hacc⟩ | ⟨hres, rfl, hacc⟩ | ⟨hres, hpi, hacc⟩
    · simp only [hres]
      refine ⟨?_, fun j hj => ⟨?_, Function.update_of_ne hj _ _⟩, ⟨hcons, hpop⟩,
        .inl ⟨Function.update_self .., item, hP item hitem, hacc⟩⟩
      · show Carries P (r.producers i) (Function.update s.callers i .outside i)
        rw [hprod, Function.update_self, Function.update_self]
        rfl
      · show r.producers j = s.ring.producers j
        rw [hprod, Function.update_of_ne hj]
    · simp only [hres]
      exact hsame nofun hacc
    · simp only [hres]
      refine hsame (fun m hm => ?_) hacc
      rw [hpi] at hm
      cases hm
      exact hP item hitem

end

end ShardQueue

namespace CryptoSubsystem

/-! ## The threads -/

/-- The two threads that push into the shard queues. -/
inductive Pusher where
  | network
  | main
deriving DecidableEq

/-- The network thread: between two handlers of `io_ctx->run()`, in `OnMessage` before its `Push`
into queue `j`, inside that `Push`, or past the end of `run()`. -/
inductive Network (n : Nat) where
  | running
  | handling (j : Fin n) (msg : RawMessage)
  | pushing (j : Fin n)
  | exited

/-- The main thread: before `StopNetwork`, in `DrainQueues` before or inside the push into queue
`i`, or at one of the joins of `Shutdown`. -/
inductive Main (n : Nat) where
  | running
  | drain (i : Nat)
  | pushing (i : Fin n)
  | joinNetwork
  | joinWorkers
  | returned

structure State (n : Nat) where
  queues : Fin n → ShardQueue.State Pusher
  network : Network n
  main : Main n
  /-- Whether the loop of `ShardParserWorker::Run` is still running. -/
  workers : Fin n → Bool

inductive Action (n : Nat) where
  /-- A handler starts on the network thread with a message for shard `j`. -/
  | receive (j : Fin n) (msg : RawMessage)
  | network
  | main
  | worker (j : Fin n)

variable {n : Nat} {c : Capacity} {s t : State n}

/-- The queue that the network thread is about to push into, or pushes into. -/
def Network.queue : Network n → Option (Fin n)
  | .handling j _ | .pushing j => some j
  | _ => none

def Network.pushQueue : Network n → Option (Fin n)
  | .pushing j => some j
  | _ => none

/-- `io_ctx->stop()` has been called. -/
def Main.stopped : Main n → Bool
  | .running => false
  | _ => true

/-- The queue whose pill is pushed next. -/
def Main.next : Main n → Option (Fin n)
  | .drain i => if h : i < n then some ⟨i, h⟩ else none
  | _ => none

def Main.pushQueue : Main n → Option (Fin n)
  | .pushing i => some i
  | _ => none

/-- The pill of queue `j` has been pushed. -/
def Main.past (j : Fin n) : Main n → Prop
  | .running => False
  | .drain i => j < i
  | .pushing i => j < i
  | _ => True

def Caller.isOutside : ShardQueue.Caller → Bool
  | .outside => true
  | _ => false

/-- The next operation of the `Push` in progress: a new attempt after one that failed. -/
def continuePush (c : Capacity) (q : ShardQueue.State Pusher) (i : Pusher) :
    Option (ShardQueue.State Pusher) :=
  match q.ring.producers i with
  | .idle => ShardQueue.step c q (.retry i)
  | _ => ShardQueue.step c q (.produce i)

def State.setQueue (s : State n) (j : Fin n) (q : ShardQueue.State Pusher) : State n :=
  { s with queues := Function.update s.queues j q }

def networkStep (c : Capacity) (s : State n) : Option (State n) :=
  match s.network with
  | .running => if s.main.stopped then some { s with network := .exited } else none
  | .handling j msg =>
    (ShardQueue.step c (s.queues j) (.push .network msg)).map fun q =>
      { s.setQueue j q with network := .pushing j }
  | .pushing j =>
    (continuePush c (s.queues j) .network).map fun q =>
      { s.setQueue j q with
        network := if Caller.isOutside (q.callers .network) then .running else .pushing j }
  | .exited => none

def mainStep (c : Capacity) (s : State n) : Option (State n) :=
  match s.main with
  | .running => some { s with main := .drain 0 }
  | .drain i =>
    if h : i < n then
      (ShardQueue.step c (s.queues ⟨i, h⟩) (.push .main default)).map fun q =>
        { s.setQueue ⟨i, h⟩ q with main := .pushing ⟨i, h⟩ }
    else some { s with main := .joinNetwork }
  | .pushing i =>
    (continuePush c (s.queues i) .main).map fun q =>
      { s.setQueue i q with
        main := if Caller.isOutside (q.callers .main) then .drain (i + 1) else .pushing i }
  | .joinNetwork =>
    match s.network with
    | .exited => some { s with main := .joinWorkers }
    | _ => none
  | .joinWorkers => if ∀ j, s.workers j = false then some { s with main := .returned } else none
  | .returned => none

/-- The next operation of `PopBlocking` in `Run`, which ends at a message of size zero. -/
def workerStep (c : Capacity) (s : State n) (j : Fin n) : Option (State n) :=
  if s.workers j then
    let q := s.queues j
    some { s.setQueue j { q with ring := RingQueue.consume (ShardQueue.ring c) q.ring } with
      workers := Function.update s.workers j <|
        match RingQueue.popResult q.ring with
        | some msg => msg.size != 0
        | none => true }
  else none

def step (c : Capacity) (s : State n) : Action n → Option (State n)
  | .receive j msg =>
    match s.network with
    | .running =>
      if s.main.stopped = false ∧ msg.size ≠ 0 then some { s with network := .handling j msg }
      else none
    | _ => none
  | .network => networkStep c s
  | .main => mainStep c s
  | .worker j => workerStep c s j

def init (n : Nat) : State n where
  queues _ := ShardQueue.init Pusher
  network := .running
  main := .running
  workers _ := true

def machine (n : Nat) (c : Capacity) : Machine (State n) (Action n) where
  init := init n
  step := step c

/-- The push of a pill starts when the network thread is outside the queue. -/
def PillAlone (s : State n) : Action n → Prop
  | .main => ∀ j ∈ s.main.next, s.network.queue ≠ some j
  | _ => True

/-- No queue receives `2 ^ 64` messages. -/
def NoWrap (c : Capacity) (s : State n) : Action n → Prop
  | .network => ∀ j ∈ s.network.pushQueue, ShardQueue.NoWrap c (s.queues j) (.produce .network)
  | .main => ∀ j ∈ s.main.pushQueue, ShardQueue.NoWrap c (s.queues j) (.produce .main)
  | _ => True

instance : ∀ a, Decidable (PillAlone s a)
  | .main => inferInstanceAs (Decidable (∀ j ∈ s.main.next, s.network.queue ≠ some j))
  | .receive .. | .network | .worker _ => isTrue trivial

instance : ∀ a, Decidable (NoWrap c s a)
  | .network => inferInstanceAs (Decidable (∀ j ∈ s.network.pushQueue, ShardQueue.NoWrap c _ _))
  | .main => inferInstanceAs (Decidable (∀ j ∈ s.main.pushQueue, ShardQueue.NoWrap c _ _))
  | .receive .. | .worker _ => isTrue trivial

/-- The messages of queue `j` reach its worker, and the pill ends it. -/
structure Stops (c : Capacity) (s : State n) (j : Fin n) : Prop where
  /-- What the worker has popped are the messages pushed, each once and in order. -/
  popped : (s.queues j).ring.popped <+: (s.queues j).ring.accepted
  /-- The pill is the last message, and the only one of size zero. -/
  pill_last : s.main.past j → ∃ msgs pill, (s.queues j).ring.accepted = msgs ++ [pill] ∧
    pill.size = 0 ∧ ∀ m ∈ msgs, m.size ≠ 0
  /-- The loop has only ended with everything popped. -/
  ended : s.workers j = false → (s.queues j).ring.popped = (s.queues j).ring.accepted ∧
    s.main.past j
  /-- Once the pill is pushed, the worker pops all messages and ends. -/
  ends : s.main.past j → ∃ k t, (machine n c).exec s (List.replicate k (.worker j)) = some t ∧
    t.workers j = false ∧ (t.queues j).ring.popped = (s.queues j).ring.accepted

/-! ## The invariant -/

structure QueueInv (c : Capacity) (s : State n) (j : Fin n) : Prop where
  ring : ShardQueue.RingOk c (s.queues j)
  network : ShardQueue.Carries (·.size ≠ 0) ((s.queues j).ring.producers .network)
    ((s.queues j).callers .network)
  main : ShardQueue.Carries (·.size = 0) ((s.queues j).ring.producers .main)
    ((s.queues j).callers .main)
  network_outside : s.network.pushQueue ≠ some j → (s.queues j).callers .network = .outside
  main_outside : s.main.pushQueue ≠ some j → (s.queues j).callers .main = .outside
  before : ¬ s.main.past j → ∀ m ∈ (s.queues j).ring.accepted, m.size ≠ 0
  after : s.main.past j → ∃ msgs pill, (s.queues j).ring.accepted = msgs ++ [pill] ∧
    pill.size = 0 ∧ ∀ m ∈ msgs, m.size ≠ 0
  running : s.workers j = true → ∀ m ∈ (s.queues j).ring.popped, m.size ≠ 0
  ended : s.workers j = false → (s.queues j).ring.consumer = .idle ∧
    (s.queues j).ring.popped = (s.queues j).ring.accepted ∧ s.main.past j
  /-- From the push of the pill on the network thread stays outside the queue. -/
  closed : s.main.pushQueue = some j ∨ s.main.past j → s.network.queue ≠ some j

structure Inv (c : Capacity) (s : State n) : Prop where
  queue : ∀ j, QueueInv c s j
  handling : ∀ {j msg}, s.network = .handling j msg → msg.size ≠ 0

theorem Main.stopped_of_past {m : Main n} {j : Fin n} (h : m.pushQueue = some j ∨ m.past j) :
    m.stopped = true := by
  cases m with
  | running => rcases h with h | h <;> cases h
  | _ => rfl

theorem Network.queue_of_pushQueue {m : Network n} {j : Fin n} (h : m.pushQueue = some j) :
    m.queue = some j := by
  cases m with
  | pushing i => exact h
  | _ => cases h

namespace QueueInv

variable {j : Fin n}

/-- A step elsewhere. -/
theorem congr (h : QueueInv c s j) (hq : t.queues j = s.queues j)
    (hw : t.workers j = s.workers j) (hpast : t.main.past j ↔ s.main.past j)
    (hnet : s.network.pushQueue = some j → t.network.pushQueue = some j)
    (hmain : s.main.pushQueue = some j → t.main.pushQueue = some j)
    (hclosed : t.main.pushQueue = some j ∨ t.main.past j → t.network.queue ≠ some j) :
    QueueInv c t j where
  ring := hq ▸ h.ring
  network := hq ▸ h.network
  main := hq ▸ h.main
  network_outside hne := hq ▸ h.network_outside (mt hnet hne)
  main_outside hne := hq ▸ h.main_outside (mt hmain hne)
  before hne := hq ▸ h.before (mt hpast.mpr hne)
  after hp := hq ▸ h.after (hpast.mp hp)
  running hr := hq ▸ h.running (hw ▸ hr)
  ended he := by
    rw [hq, hpast]
    exact h.ended (hw ▸ he)
  closed := hclosed

theorem producer_idle {P : RawMessage → Prop} {p : RingQueue.Producer RawMessage}
    {k : ShardQueue.Caller} (h : ShardQueue.Carries P p k) (hk : k = .outside) : p = .idle := by
  subst hk
  exact h

/-- Nobody else pushes while the network thread is in a handler for the queue. -/
theorem others_idle_of_network (h : QueueInv c s j) (hnet : s.network.queue = some j) {k : Pusher}
    (hk : k ≠ .network) : (s.queues j).ring.producers k = .idle := by
  cases k with
  | main => exact producer_idle h.main (h.main_outside fun hp => h.closed (.inl hp) hnet)
  | network => exact absurd rfl hk

/-- Nobody else pushes while the main thread pushes the pill. -/
theorem others_idle_of_main (h : QueueInv c s j) (hnet : s.network.queue ≠ some j) {k : Pusher}
    (hk : k ≠ .main) : (s.queues j).ring.producers k = .idle := by
  cases k with
  | main => exact absurd rfl hk
  | network =>
    exact producer_idle h.network (h.network_outside fun hp =>
      hnet (Network.queue_of_pushQueue hp))

/-- A step of the network thread's push into queue `j`. -/
theorem networkPush (h : QueueInv c s j) (hr : ShardQueue.RingOk c (t.queues j))
    (hq : ShardQueue.PushStep (·.size ≠ 0) .network (s.queues j) (t.queues j))
    (hw : t.workers = s.workers) (hm : t.main = s.main) (hnet : s.network.queue = some j)
    (hpc : t.network.pushQueue ≠ some j → (t.queues j).callers .network = .outside) :
    QueueInv c t j := by
  have hopen : ¬ (s.main.pushQueue = some j ∨ s.main.past j) := fun hc => h.closed hc hnet
  obtain ⟨hprod, hcall⟩ := hq.others .main (by decide)
  constructor
  case ring => exact hr
  case network => exact hq.carries
  case main =>
    rw [hprod, hcall]
    exact h.main
  case network_outside => exact hpc
  case main_outside =>
    rw [hm, hcall]
    exact h.main_outside
  case before =>
    rw [hm]
    intro hne m' hm'
    rcases hq.accepted with ⟨-, m, hm, hacc⟩ | ⟨-, hacc⟩
    · rw [hacc, List.mem_append, List.mem_singleton] at hm'
      rcases hm' with hm' | rfl
      · exact h.before hne m' hm'
      · exact hm
    · rw [hacc] at hm'
      exact h.before hne m' hm'
  case after =>
    rw [hm]
    exact fun hp => absurd (.inr hp) hopen
  case running =>
    rw [hw, hq.consumer.2]
    exact h.running
  case ended =>
    rw [hw]
    exact fun he => absurd (.inr (h.ended he).2.2) hopen
  case closed =>
    rw [hm]
    exact fun hc => absurd hc hopen

/-- A step of the main thread's push into queue `j`. -/
theorem mainPush (h : QueueInv c s j) (hr : ShardQueue.RingOk c (t.queues j))
    (hq : ShardQueue.PushStep (·.size = 0) .main (s.queues j) (t.queues j))
    (hw : t.workers = s.workers) (hn : t.network = s.network) (hnet : s.network.queue ≠ some j)
    (hpast : ¬ s.main.past j)
    (hpc : t.main = .pushing j ∧ (t.queues j).callers .main ≠ .outside ∨
      t.main = .drain (j + 1) ∧ (t.queues j).callers .main = .outside) :
    QueueInv c t j := by
  obtain ⟨hprod, hcall⟩ := hq.others .network (by decide)
  constructor
  case ring => exact hr
  case main => exact hq.carries
  case network =>
    rw [hprod, hcall]
    exact h.network
  case network_outside =>
    rw [hn, hcall]
    exact h.network_outside
  case main_outside =>
    intro hne
    rcases hpc with ⟨hm, -⟩ | ⟨-, hout⟩
    · rw [hm] at hne
      exact absurd rfl hne
    · exact hout
  case before =>
    intro hne
    rcases hpc with ⟨-, hout⟩ | ⟨hm, -⟩
    · rcases hq.accepted with ⟨hout', -⟩ | ⟨-, hacc⟩
      · exact absurd hout' hout
      · rw [hacc]
        exact h.before hpast
    · rw [hm] at hne
      exact absurd (Nat.lt_succ_self _) hne
  case after =>
    intro hp
    rcases hpc with ⟨hm, -⟩ | ⟨-, hout⟩
    · rw [hm] at hp
      exact absurd hp (Nat.lt_irrefl _)
    · rcases hq.accepted with ⟨-, pill, hpill, hacc⟩ | ⟨hout', -⟩
      · exact ⟨_, pill, hacc, hpill, h.before hpast⟩
      · exact absurd hout hout'
  case running =>
    rw [hw, hq.consumer.2]
    exact h.running
  case ended =>
    rw [hw]
    exact fun he => absurd (h.ended he).2.2 hpast
  case closed =>
    rw [hn]
    exact fun _ => hnet

/-- The message that ends the loop is the last one. -/
theorem pill_popped (h : QueueInv c s j) {msg : RawMessage}
    (hpop : RingQueue.popResult (s.queues j).ring = some msg) (hsize : msg.size = 0) :
    s.main.past j ∧ (s.queues j).ring.popped ++ [msg] = (s.queues j).ring.accepted := by
  have hnext : (s.queues j).ring.accepted[(s.queues j).ring.popped.length]? = some msg := by
    obtain ⟨r, hk⟩ := RingQueue.consumer_of_popResult hpop
    have hcons := h.ring.inv.consumer
    rw [hk] at hcons
    exact hcons.2
  have hpast : s.main.past j := by
    by_contra hne
    exact h.before hne msg (List.mem_of_getElem? hnext) hsize
  obtain ⟨msgs, pill, hacc, -, hmsgs⟩ := h.after hpast
  obtain ⟨rest, hrest⟩ := h.ring.inv.fifo
  refine ⟨hpast, ?_⟩
  -- every message before the pill has a size, so the unread rest is the pill alone
  have hlen : msgs.length ≤ (s.queues j).ring.popped.length := by
    by_contra hlt
    rw [hacc, List.getElem?_append_left (by omega)] at hnext
    exact hmsgs msg (List.mem_of_getElem? hnext) hsize
  have htotal : (s.queues j).ring.popped.length + rest.length = msgs.length + 1 := by
    rw [← List.length_append, hrest, hacc, List.length_append, List.length_singleton]
  rw [← hrest, List.getElem?_append_right (Nat.le_refl _), Nat.sub_self] at hnext
  rw [← hrest]
  cases rest with
  | nil => cases hnext
  | cons x rest =>
    cases hnext
    rw [List.length_cons] at htotal
    rw [List.length_eq_zero_iff.mp (show rest.length = 0 by omega)]

/-- A step of the worker. -/
theorem worker (h : QueueInv c s j) (hrun : s.workers j = true)
    (hq : t.queues j = { s.queues j with
      ring := RingQueue.consume (ShardQueue.ring c) (s.queues j).ring })
    (hw : t.workers j = match RingQueue.popResult (s.queues j).ring with
      | some msg => msg.size != 0
      | none => true)
    (hn : t.network = s.network) (hm : t.main = s.main) : QueueInv c t j := by
  obtain ⟨hacc, hprod⟩ := RingQueue.consume_accepted (q := ShardQueue.ring c) (s.queues j).ring
  have hpopped := RingQueue.consume_popped (q := ShardQueue.ring c) (s.queues j).ring
  constructor
  case ring =>
    rw [hq]
    exact h.ring.step (a := .consume) trivial trivial rfl
  case network =>
    rw [hq, hprod]
    exact h.network
  case main =>
    rw [hq, hprod]
    exact h.main
  case network_outside =>
    rw [hq, hn]
    exact h.network_outside
  case main_outside =>
    rw [hq, hm]
    exact h.main_outside
  case before =>
    rw [hq, hm, hacc]
    exact h.before
  case after =>
    rw [hq, hm, hacc]
    exact h.after
  case running =>
    rw [hw, hq, hpopped]
    cases hpop : RingQueue.popResult (s.queues j).ring with
    | none =>
      rw [Option.toList_none, List.append_nil]
      exact fun _ => h.running hrun
    | some msg =>
      rw [Option.toList_some]
      intro hsize m hm
      rcases List.mem_append.mp hm with hm | hm
      · exact h.running hrun m hm
      · rw [List.mem_singleton.mp hm]
        exact bne_iff_ne.mp hsize
  case ended =>
    rw [hw, hq, hm, hacc, hpopped]
    cases hpop : RingQueue.popResult (s.queues j).ring with
    | none => nofun
    | some msg =>
      intro hsize
      obtain ⟨hpast, hall⟩ := h.pill_popped hpop (by simpa using hsize)
      exact ⟨RingQueue.consume_idle_of_popResult hpop, hall, hpast⟩
  case closed =>
    rw [hn, hm]
    exact h.closed

end QueueInv

/-! ## Steps -/

/-- The start of a `Push` while no other one is in progress. -/
theorem push_spec {P : RawMessage → Prop} (hP : ∀ m, P m → P m.movedFrom)
    {q q' : ShardQueue.State Pusher} {i : Pusher} {msg : RawMessage}
    (hr : ShardQueue.RingOk c q) (hidle : RingQueue.Exclusive q.ring) (hmsg : P msg)
    (h : ShardQueue.step c q (.push i msg) = some q') :
    (ShardQueue.RingOk c q' ∧ ShardQueue.PushStep P i q q') ∧ q'.callers i ≠ .outside := by
  have hr' := hr.step (a := .push i msg) hidle trivial h
  cases ShardQueue.stepEffect h with
  | push htry =>
    refine ⟨⟨hr', .attempt hmsg (hP msg hmsg) htry⟩, ?_⟩
    show Function.update q.callers i _ i ≠ _
    rw [Function.update_self]
    intro hout
    cases hout

/-- A further operation of a `Push` while no other one is in progress. -/
theorem continuePush_spec {P : RawMessage → Prop} (hP : ∀ m, P m → P m.movedFrom)
    {q q' : ShardQueue.State Pusher} {i : Pusher} (hr : ShardQueue.RingOk c q)
    (hcarries : ShardQueue.Carries P (q.ring.producers i) (q.callers i))
    (hothers : ∀ k ≠ i, q.ring.producers k = .idle) (hw : ShardQueue.NoWrap c q (.produce i))
    (h : continuePush c q i = some q') :
    ShardQueue.RingOk c q' ∧ ShardQueue.PushStep P i q q' := by
  unfold continuePush at h
  split at h
  next hi =>
    have hidle : RingQueue.Exclusive q.ring := by
      intro k
      rcases eq_or_ne k i with rfl | hk
      · exact hi
      · exact hothers k hk
    refine ⟨hr.step (a := .retry i) hidle trivial h, ?_⟩
    cases ShardQueue.stepEffect h with
    | retry hk htry =>
      rw [hk] at hcarries
      exact .attempt hcarries.1 (hP _ hcarries.1) htry
  next => exact ⟨hr.step (a := .produce i) trivial hw h, ShardQueue.PushStep.produce hcarries h⟩

theorem isOutside_iff {k : ShardQueue.Caller} : Caller.isOutside k = true ↔ k = .outside := by
  cases k <;> simp [Caller.isOutside]

theorem setQueue_self (s : State n) (j : Fin n) (q : ShardQueue.State Pusher) :
    (s.setQueue j q).queues j = q := Function.update_self ..

theorem setQueue_of_ne (s : State n) {i j : Fin n} (q : ShardQueue.State Pusher) (h : i ≠ j) :
    (s.setQueue j q).queues i = s.queues i := Function.update_of_ne h ..

namespace Inv

theorem init : Inv c (init n) where
  queue j := {
    ring := .init
    network := rfl
    main := rfl
    network_outside := fun _ => rfl
    main_outside := fun _ => rfl
    before := fun _ _ h => by cases h
    after := fun h => h.elim
    running := fun _ _ h => by cases h
    ended := fun h => by cases h
    closed := fun _ => nofun }
  handling h := by cases h

/-- A step of the network thread inside its push into queue `j`. -/
theorem networkPush (h : Inv c s) {j : Fin n} {q : ShardQueue.State Pusher}
    (hspec : ShardQueue.RingOk c q ∧
      ShardQueue.PushStep (·.size ≠ 0) .network (s.queues j) q)
    (hnet : s.network.queue = some j) (hself : t.queues j = q)
    (hothers : ∀ i ≠ j, t.queues i = s.queues i) (hw : t.workers = s.workers)
    (hm : t.main = s.main)
    (hpc : t.network = .pushing j ∨ t.network = .running ∧ q.callers .network = .outside) :
    Inv c t where
  queue i := by
    subst hself
    rcases eq_or_ne i j with rfl | hi
    · refine (h.queue i).networkPush hspec.1 hspec.2 hw hm hnet fun hne => ?_
      rcases hpc with hpc | ⟨-, hout⟩
      · rw [hpc] at hne
        exact absurd rfl hne
      · exact hout
    · refine (h.queue i).congr (hothers i hi) (congrFun hw i) (by rw [hm]) ?_ (by rw [hm]; exact id)
        fun _ => ?_
      · intro hp
        rw [Network.queue_of_pushQueue hp] at hnet
        exact absurd (Option.some.inj hnet) hi
      · rcases hpc with hpc | ⟨hpc, -⟩
        · rw [hpc]
          exact fun heq => hi (Option.some.inj heq).symm
        · rw [hpc]
          nofun
  handling hp := by
    rcases hpc with hpc | ⟨hpc, -⟩ <;> rw [hpc] at hp <;> cases hp

/-- A step of the main thread inside the push of the pill of queue `j`. -/
theorem mainPush (h : Inv c s) {j : Fin n} {q : ShardQueue.State Pusher}
    (hspec : ShardQueue.RingOk c q ∧ ShardQueue.PushStep (·.size = 0) .main (s.queues j) q)
    (hnet : s.network.queue ≠ some j) (hmain : s.main = .drain j ∨ s.main = .pushing j)
    (hself : t.queues j = q) (hothers : ∀ i ≠ j, t.queues i = s.queues i)
    (hw : t.workers = s.workers) (hn : t.network = s.network)
    (hpc : t.main = .pushing j ∧ q.callers .main ≠ .outside ∨
      t.main = .drain (j + 1) ∧ q.callers .main = .outside) : Inv c t where
  queue i := by
    subst hself
    have hpast : s.main.past i ↔ i < j := by rcases hmain with hm | hm <;> rw [hm] <;> rfl
    rcases eq_or_ne i j with rfl | hi
    · exact (h.queue i).mainPush hspec.1 hspec.2 hw hn hnet
        (by rw [hpast]; exact Nat.lt_irrefl _) hpc
    · have hpast' : t.main.past i ↔ i < j := by
        rcases hpc with ⟨hm, -⟩ | ⟨hm, -⟩ <;> rw [hm]
        · rfl
        · show (i : Nat) < j + 1 ↔ (i : Nat) < j
          have : (i : Nat) ≠ j := fun heq => hi (Fin.ext heq)
          omega
      have hnone : s.main.pushQueue ≠ some i ∧ t.main.pushQueue ≠ some i := by
        constructor
        · rcases hmain with hm | hm <;> rw [hm]
          · nofun
          · exact fun heq => hi (Option.some.inj heq).symm
        · rcases hpc with ⟨hm, -⟩ | ⟨hm, -⟩ <;> rw [hm]
          · exact fun heq => hi (Option.some.inj heq).symm
          · nofun
      refine (h.queue i).congr (hothers i hi) (congrFun hw i) (hpast'.trans hpast.symm)
        (by rw [hn]; exact id) (fun hp => absurd hp hnone.1) ?_
      rw [hn, hpast'.trans hpast.symm]
      exact fun hc => (h.queue i).closed (.inr (hc.resolve_left hnone.2))
  handling hp := h.handling (hn ▸ hp)

theorem networkStep (h : Inv c s) (hw : NoWrap c s .network) (hs : networkStep c s = some t) :
    Inv c t := by
  unfold CryptoSubsystem.networkStep at hs
  split at hs
  next hnet =>
    split at hs
    next =>
      cases hs
      refine ⟨fun i => (h.queue i).congr rfl rfl Iff.rfl ?_ id fun _ => nofun, nofun⟩
      rw [hnet]
      nofun
    next => cases hs
  next j msg hnet =>
    obtain ⟨q, hq, rfl⟩ := Option.map_eq_some_iff.mp hs
    have hj : s.network.queue = some j := by rw [hnet]; rfl
    have hidle : RingQueue.Exclusive (s.queues j).ring := by
      intro k
      rcases eq_or_ne k .network with rfl | hk
      · refine QueueInv.producer_idle (h.queue j).network ((h.queue j).network_outside ?_)
        rw [hnet]
        nofun
      · exact (h.queue j).others_idle_of_network hj hk
    exact h.networkPush
      (push_spec (fun _ hm => hm) (h.queue j).ring hidle (h.handling hnet) hq).1 hj
      (setQueue_self s j q) (fun i hi => setQueue_of_ne s q hi) rfl rfl (.inl rfl)
  next j hnet =>
    obtain ⟨q, hq, rfl⟩ := Option.map_eq_some_iff.mp hs
    have hj : s.network.queue = some j := by rw [hnet]; rfl
    refine h.networkPush (continuePush_spec (fun _ hm => hm) (h.queue j).ring (h.queue j).network
      (fun k hk => (h.queue j).others_idle_of_network hj hk) (hw j (by rw [hnet]; rfl)) hq) hj
      (setQueue_self s j q) (fun i hi => setQueue_of_ne s q hi) rfl rfl ?_
    show (if _ then _ else _) = _ ∨ (if _ then _ else _) = _ ∧ _
    split
    next hout => exact .inr ⟨rfl, isOutside_iff.mp hout⟩
    next => exact .inl rfl
  next => cases hs

/-- A step of the main thread that pushes nothing. -/
theorem setMain (h : Inv c s) {m : Main n} (hpast : ∀ i, m.past i ↔ s.main.past i)
    (hpush : ∀ i, s.main.pushQueue ≠ some i ∧ m.pushQueue ≠ some i) :
    Inv c { s with main := m } where
  queue i := (h.queue i).congr rfl rfl (hpast i) id (fun hp => absurd hp (hpush i).1) fun hc =>
    (h.queue i).closed (.inr ((hpast i).mp (hc.resolve_left (hpush i).2)))
  handling := h.handling

theorem mainStep (h : Inv c s) (hp : PillAlone s .main) (hw : NoWrap c s .main)
    (hs : mainStep c s = some t) : Inv c t := by
  unfold CryptoSubsystem.mainStep at hs
  split at hs
  next hm =>
    cases hs
    refine h.setMain (fun i => ?_) fun i => ?_
    · rw [hm]
      exact ⟨fun hlt => absurd hlt (Nat.not_lt_zero _), False.elim⟩
    · rw [hm]
      exact ⟨nofun, nofun⟩
  next i hm =>
    split at hs
    next hlt =>
      obtain ⟨q, hq, rfl⟩ := Option.map_eq_some_iff.mp hs
      have hnet : s.network.queue ≠ some ⟨i, hlt⟩ := hp _ (by rw [hm]; exact dif_pos hlt)
      have hinv := h.queue ⟨i, hlt⟩
      have hidle : RingQueue.Exclusive (s.queues ⟨i, hlt⟩).ring := by
        intro k
        rcases eq_or_ne k .main with rfl | hk
        · refine QueueInv.producer_idle hinv.main (hinv.main_outside ?_)
          rw [hm]
          nofun
        · exact hinv.others_idle_of_main hnet hk
      have hspec := push_spec (P := (·.size = 0)) (fun _ hz => hz) hinv.ring hidle rfl hq
      exact h.mainPush hspec.1 hnet (.inl hm) (setQueue_self s _ q)
        (fun i hi => setQueue_of_ne s q hi) rfl rfl (.inl ⟨rfl, hspec.2⟩)
    next hge =>
      cases hs
      refine h.setMain (fun j => ?_) fun j => ?_
      · rw [hm]
        exact ⟨fun _ => Nat.lt_of_lt_of_le j.isLt (Nat.not_lt.mp hge), fun _ => trivial⟩
      · rw [hm]
        exact ⟨nofun, nofun⟩
  next i hm =>
    obtain ⟨q, hq, rfl⟩ := Option.map_eq_some_iff.mp hs
    have hinv := h.queue i
    have hnet := hinv.closed (.inl (by rw [hm]; rfl))
    refine h.mainPush (continuePush_spec (fun _ hz => hz) hinv.ring hinv.main
      (fun k hk => hinv.others_idle_of_main hnet hk) (hw i (by rw [hm]; rfl)) hq) hnet (.inr hm)
      (setQueue_self s i q) (fun i hi => setQueue_of_ne s q hi) rfl rfl ?_
    show (if _ then _ else _) = _ ∧ _ ∨ (if _ then _ else _) = _ ∧ _
    split
    next hout => exact .inr ⟨rfl, isOutside_iff.mp hout⟩
    next hout => exact .inl ⟨rfl, mt isOutside_iff.mpr hout⟩
  next hm =>
    split at hs
    next =>
      cases hs
      exact h.setMain (fun _ => by rw [hm]; exact Iff.rfl) fun _ => by rw [hm]; exact ⟨nofun, nofun⟩
    next => cases hs
  next hm =>
    split at hs
    next =>
      cases hs
      exact h.setMain (fun _ => by rw [hm]; exact Iff.rfl) fun _ => by rw [hm]; exact ⟨nofun, nofun⟩
    next => cases hs
  next => cases hs

theorem workerStep (h : Inv c s) {j : Fin n} (hs : workerStep c s j = some t) : Inv c t := by
  unfold CryptoSubsystem.workerStep at hs
  split at hs
  next hrun =>
    cases hs
    refine ⟨fun i => ?_, h.handling⟩
    rcases eq_or_ne i j with rfl | hi
    · exact (h.queue i).worker hrun (setQueue_self ..) (Function.update_self ..) rfl rfl
    · exact (h.queue i).congr (setQueue_of_ne s _ hi) (Function.update_of_ne hi ..) Iff.rfl id id
        (h.queue i).closed
  next => cases hs

theorem step (h : Inv c s) {a : Action n} (hp : PillAlone s a) (hw : NoWrap c s a)
    (hs : step c s a = some t) : Inv c t := by
  cases a with
  | receive j msg =>
    simp only [CryptoSubsystem.step] at hs
    split at hs
    next hnet =>
      split at hs
      next hmsg =>
        cases hs
        refine ⟨fun i => (h.queue i).congr rfl rfl Iff.rfl ?_ id fun hc => ?_, fun heq => ?_⟩
        · rw [hnet]
          nofun
        · have := Main.stopped_of_past hc
          rw [hmsg.1] at this
          cases this
        · cases heq
          exact hmsg.2
      next => cases hs
    next => cases hs
  | network => exact h.networkStep hw hs
  | main => exact h.mainStep hp hw hs
  | worker j => exact h.workerStep hs

/-- A running worker whose pill is pushed has a message to pop. -/
theorem worker_progress (h : Inv c s) {j : Fin n} (hpast : s.main.past j)
    (hrun : s.workers j = true) :
    ∃ t, CryptoSubsystem.workerStep c s j = some t ∧ t.main = s.main ∧
      (t.queues j).ring.accepted = (s.queues j).ring.accepted ∧
      (t.queues j).ring.todo + 1 = (s.queues j).ring.todo := by
  have hq := h.queue j
  have hlt : (s.queues j).ring.popped.length < (s.queues j).ring.accepted.length := by
    refine Nat.lt_of_le_of_ne hq.ring.inv.length_le fun heq => ?_
    obtain ⟨msgs, pill, hacc, hpill, -⟩ := hq.after hpast
    refine hq.running hrun pill ?_ hpill
    rw [hq.ring.inv.fifo.eq_of_length heq, hacc]
    exact List.mem_append_right _ (List.mem_singleton.mpr rfl)
  refine ⟨_, if_pos hrun, rfl, ?_, ?_⟩
  · show (Function.update s.queues j _ j).ring.accepted = _
    rw [Function.update_self]
    exact (RingQueue.consume_accepted _).1
  · show (Function.update s.queues j _ j).ring.todo + 1 = _
    rw [Function.update_self]
    exact hq.ring.inv.consume_todo (ShardQueue.lawful c) hq.ring.accepted_lt hlt

/-- Once the pill of a queue is pushed, its worker ends in a bounded number of its own steps. -/
theorem ends (h : Inv c s) {j : Fin n} (hpast : s.main.past j) :
    ∃ k t, (machine n c).exec s (List.replicate k (.worker j)) = some t ∧ t.workers j = false ∧
      (t.queues j).ring.popped = (s.queues j).ring.accepted := by
  generalize hk : (s.queues j).ring.todo = k
  induction k generalizing s with
  | zero =>
    cases hw : s.workers j with
    | false => exact ⟨0, s, rfl, hw, ((h.queue j).ended hw).2.1⟩
    | true =>
      obtain ⟨t, -, -, -, htodo⟩ := h.worker_progress hpast hw
      omega
  | succ k ih =>
    cases hw : s.workers j with
    | false => exact ⟨0, s, rfl, hw, ((h.queue j).ended hw).2.1⟩
    | true =>
      obtain ⟨t, ht, hmain, hacc, htodo⟩ := h.worker_progress hpast hw
      obtain ⟨m, u, hu, hend, hpop⟩ := ih (h.workerStep ht) (hmain ▸ hpast) (by omega)
      refine ⟨m + 1, u, ?_, hend, hpop.trans hacc⟩
      rw [List.replicate_succ]
      exact (Machine.exec_cons_iff _).mpr ⟨t, ht, hu⟩

theorem stops (h : Inv c s) (j : Fin n) : Stops c s j where
  popped := (h.queue j).ring.inv.fifo
  pill_last := (h.queue j).after
  ended he := ((h.queue j).ended he).2
  ends := h.ends

end Inv

/-- In every run in which the network thread is outside a queue when the push of its pill starts,
and in which no queue receives `2 ^ 64` messages, every message reaches its worker and the pill
ends it. -/
theorem stops_of_pillAlone (n : Nat) (c : Capacity) (as : List (Action n)) (s : State n)
    (hs : (machine n c).exec (init n) as = some s)
    (hp : (machine n c).Along (fun s a => PillAlone s a ∧ NoWrap c s a) (init n) as)
    (j : Fin n) : Stops c s j :=
  have hinv : Inv c s :=
    (machine n c).exec_invariant (fun _ _ _ h ha => h.step ha.1 ha.2) .init hp hs
  hinv.stops j

/-! ### One shard -/

/-- The capacity `BuildCryptoChannels` asks for. -/
def kShardQueueCapacity : Capacity := ⟨12, by decide⟩

example : ShardQueue.nextPowerOf2 4096 = some kShardQueueCapacity.word := by decide

/-- A handler is inside `Push`, at its load of `read_pos_`, when the main thread pushes the pill. -/
def overlapping : List (Action 1) :=
  [.receive 0 (ShardQueue.message 1), .network, .main, .main, .main, .main, .main,
    .network, .network, .network]

/-- Both pushes return. The worker pops the message and then finds the queue empty: the pill is
gone and its loop does not end. -/
theorem overlapping_pill_is_lost :
    ∃ s, (machine 1 kShardQueueCapacity).exec (init 1)
        (overlapping ++ [.worker 0, .worker 0, .worker 0, .worker 0]) = some s ∧
      s.main.past 0 ∧ s.workers 0 = true ∧ (s.queues 0).ring.popped = [ShardQueue.message 1] ∧
      (∃ t, (machine 1 kShardQueueCapacity).exec s [.worker 0, .worker 0] = some t ∧
        t.workers 0 = true ∧ (t.queues 0).ring.consumer = .idle ∧
        (t.queues 0).ring.popped = [ShardQueue.message 1]) ∧
      ¬ Stops kShardQueueCapacity s 0 := by
  refine ⟨_, rfl, Nat.zero_lt_one, rfl, rfl, ⟨_, rfl, rfl, rfl, rfl⟩, fun h => ?_⟩
  obtain ⟨msgs, pill, hacc, hpill, -⟩ := h.pill_last Nat.zero_lt_one
  have hlast : some (ShardQueue.message 1) = (msgs ++ [pill]).getLast? :=
    congrArg List.getLast? hacc
  rw [List.getLast?_concat] at hlast
  rw [← Option.some.inj hlast] at hpill
  exact absurd hpill (by decide)

/-- The handler has returned when the pill is pushed. -/
def settled : List (Action 1) :=
  [.receive 0 (ShardQueue.message 1), .network, .network, .network, .network,
    .main, .main, .main, .main, .main]

theorem stops_settled :
    ∃ s, (machine 1 kShardQueueCapacity).exec (init 1) settled = some s ∧ s.main.past 0 ∧
      (s.queues 0).ring.accepted = [ShardQueue.message 1, default] ∧
      Stops kShardQueueCapacity s 0 :=
  ⟨_, rfl, Nat.zero_lt_one, rfl,
    stops_of_pillAlone 1 kShardQueueCapacity settled _ rfl (by decide) 0⟩

end CryptoSubsystem

end Sqc
