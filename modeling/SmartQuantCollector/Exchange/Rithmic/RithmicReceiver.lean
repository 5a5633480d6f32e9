import SmartQuantCollector.Exchange.Rithmic.GatewayRestart
import SmartQuantCollector.Pubsub.DispatchCycle

/-! # `RithmicReceiver` (`src/exchange/rithmic/rithmic_receiver.cpp`)

The thread that takes the events of the gateway out of the three queues in shared memory and passes
them to the handlers of `RithmicProcessManager::Setup`, a `DataDispatcher` for shard 0. The gateway
pushes meanwhile, is killed and started again, and the pub thread sends.

`Run` polls the queue of ticks first and goes back to it behind every event: a book ticker is taken
only when `TryPop` has found no tick, a depth event only when it has found neither
(`lower_after_empty`). `Stop` ends the loop between two events; what lies in the queues then is not
handled any more, at most a queue full of each kind (`unhandled_lt`). -/

namespace Sqc
open Concurrency MpscRithmicQueue

namespace RithmicReceiver

/-- An event with its kind. -/
abbrev Event := Σ k : EventKind, k.Event

/-- Where the receiver thread stands in `Run`. -/
inductive Pc where
  /-- Before the store of true to `running_`. -/
  | starting
  /-- Before the load of `running_`. -/
  | test
  /-- In the `TryPop` of a queue. -/
  | polling (q : EventKind)
  /-- Before the call of the handler. -/
  | handling (event : Event)
  /-- In `Publish*`, called by the handler. -/
  | publishing
  | exited

/-- The event that is popped and not yet passed to its handler. -/
def Pc.hand : Pc → List Event
  | .handling event => [event]
  | _ => []

structure State (ι : Type*) (n : Nat) where
  shm : Shm.State ι EventKind.Event
  running : Bool
  pc : Pc
  publication : Publication.State n
  /-- The events that were passed to handlers, in order. -/
  handled : List Event

inductive Action (ι : Type*) (n : Nat) where
  /-- An operation of a thread of the gateway on a queue. -/
  | gateway (q : EventKind) (a : MpscRithmicQueue.Action ι q.Event)
  /-- `CheckHealth` kills the gateway and starts another one. -/
  | restart
  /-- The next operation of the receiver; the clock is read by the handler. -/
  | receive (nowNs : UInt64)
  /-- `Stop`. -/
  | stop
  /-- An operation of the pub thread. -/
  | dispatchCycle (cursor : UInt64)
  | dispatch (answer : PubWorker.SendAnswer)

variable {ι : Type*} {n : Nat}

/-- What the loop does when it has found a queue empty. Behind the last one it spins once. -/
def afterEmpty : EventKind → Pc
  | .tick => .polling .bookTicker
  | .bookTicker => .polling .depth
  | .depth => .test

/-- The `TryPop` in progress is at the load that finds nothing published. -/
def findsEmpty {T : Type*} (c : Capacity) (s : MpscRithmicQueue.State ι T) : Bool :=
  match s.consumer with
  | .loadSequence pos => (s.slot c pos).sequence ≠ pos + 1
  | _ => false

/-- What the `TryPop` in progress returns with its next operation. -/
def popResult {T : Type*} (s : MpscRithmicQueue.State ι T) : Option T :=
  match s.consumer with
  | .storeSequence _ out => some out
  | _ => none

/-- Where an operation of the `TryPop` of queue `q` leads. -/
def afterPoll (q : EventKind) (s : MpscRithmicQueue.State ι q.Event) : Pc :=
  match popResult s with
  | some out => .handling ⟨q, out⟩
  | none => if findsEmpty q.shmCapacity s then afterEmpty q else .polling q

def receive (registry : ChannelRegistry) (s : State ι n) (nowNs : UInt64) : Option (State ι n) :=
  match s.pc with
  | .starting => some { s with running := true, pc := .test }
  | .test => some { s with pc := if s.running then .polling .tick else .exited }
  | .polling q =>
    some { s with
      shm := Function.update s.shm q (consume q.shmCapacity (s.shm q))
      pc := afterPoll q (s.shm q) }
  | .handling ⟨k, event⟩ =>
    (Publication.step registry s.publication (.onEvent .forwarder k event nowNs)).map fun p =>
      { s with pc := .publishing, publication := p, handled := s.handled ++ [⟨k, event⟩] }
  | .publishing =>
    match s.publication.worker.publishing .forwarder with
    | .outside => some { s with pc := .test }
    | _ =>
      (Publication.step registry s.publication (.advance .forwarder)).map fun p =>
        { s with publication := p }
  | .exited => none

variable [DecidableEq ι]

def step (registry : ChannelRegistry) (s : State ι n) : Action ι n → Option (State ι n)
  | .gateway _ .consume => none
  | .gateway q a =>
    (MpscRithmicQueue.step q.shmCapacity (s.shm q) a).map fun x =>
      { s with shm := Function.update s.shm q x }
  | .restart => some { s with shm := fun q => (s.shm q).kill }
  | .receive nowNs => receive registry s nowNs
  | .stop => some { s with running := false }
  | .dispatchCycle cursor =>
    (Publication.step registry s.publication (.dispatchCycle cursor)).map fun p =>
      { s with publication := p }
  | .dispatch answer =>
    (Publication.step registry s.publication (.dispatch answer)).map fun p =>
      { s with publication := p }

omit [DecidableEq ι] in
def init : State ι n where
  shm _ := MpscRithmicQueue.init
  running := false
  pc := .starting
  publication := Publication.init n
  handled := []

def machine (ι : Type*) [DecidableEq ι] (registry : ChannelRegistry) (n : Nat) :
    Machine (State ι n) (Action ι n) where
  init := init
  step := step registry

/-- Sentinels only go into freed slots, and no kill falls between the reservation of a position and
its publication. -/
def Undisturbed (s : State ι n) : Action ι n → Prop
  | .gateway q a => DropsIntoFreedSlot q.shmCapacity (s.shm q) a
  | .restart => ∀ q i, ((s.shm q).producers i).position = none
  | _ => True

/-! ## What a step does -/

/-- The steps, by what they do to the queues and to the publication. -/
inductive Effect (registry : ChannelRegistry) (s : State ι n) : Action ι n → State ι n → Prop where
  | gateway {q : EventKind} {a : MpscRithmicQueue.Action ι q.Event}
      {x : MpscRithmicQueue.State ι q.Event} (producer : a ≠ .consume)
      (queue : MpscRithmicQueue.step q.shmCapacity (s.shm q) a = some x) :
      Effect registry s (.gateway q a) { s with shm := Function.update s.shm q x }
  | restart : Effect registry s .restart { s with shm := fun q => (s.shm q).kill }
  | started {nowNs} (pc : s.pc = .starting) :
      Effect registry s (.receive nowNs) { s with running := true, pc := .test }
  | tested {nowNs} (pc : s.pc = .test) :
      Effect registry s (.receive nowNs)
        { s with pc := if s.running then .polling .tick else .exited }
  | polled {nowNs} {q : EventKind} (pc : s.pc = .polling q) :
      Effect registry s (.receive nowNs) { s with
        shm := Function.update s.shm q (consume q.shmCapacity (s.shm q))
        pc := afterPoll q (s.shm q) }
  | handled {nowNs} {k : EventKind} {event : k.Event} {p : Publication.State n}
      (pc : s.pc = .handling ⟨k, event⟩)
      (handler : Publication.step registry s.publication (.onEvent .forwarder k event nowNs) =
        some p) :
      Effect registry s (.receive nowNs)
        { s with pc := .publishing, publication := p, handled := s.handled ++ [⟨k, event⟩] }
  | published {nowNs} (pc : s.pc = .publishing) :
      Effect registry s (.receive nowNs) { s with pc := .test }
  | stop : Effect registry s .stop { s with running := false }
  /-- An operation in `Publish*` or of the pub thread. -/
  | publication {a : Action ι n} {b : Publication.Action n} {p : Publication.State n}
      (action : b = .advance .forwarder ∨ (∃ cursor, b = .dispatchCycle cursor) ∨
        ∃ answer, b = .dispatch answer)
      (step : Publication.step registry s.publication b = some p)
      (quiet : (∀ q c, a ≠ .gateway q c) ∧ a ≠ .restart ∧ ∀ q, s.pc ≠ .polling q ∨
        ∀ nowNs, a ≠ .receive nowNs) :
      Effect registry s a { s with publication := p }

theorem effect_of_step {registry : ChannelRegistry} {s t : State ι n} {a : Action ι n}
    (h : step registry s a = some t) : Effect registry s a t := by
  cases a with
  | gateway q a =>
    cases a with
    | consume => cases h
    | _ =>
      obtain ⟨x, hx, rfl⟩ := Option.map_eq_some_iff.mp h
      exact .gateway (by simp) hx
  | restart =>
    cases h
    exact .restart
  | receive nowNs =>
    simp only [step, receive] at h
    split at h
    next hpc =>
      cases h
      exact .started hpc
    next hpc =>
      cases h
      exact .tested hpc
    next q hpc =>
      cases h
      exact .polled hpc
    next k event hpc =>
      obtain ⟨p, hp, rfl⟩ := Option.map_eq_some_iff.mp h
      exact .handled hpc hp
    next hpc =>
      split at h
      next =>
        cases h
        exact .published hpc
      next =>
        obtain ⟨p, hp, rfl⟩ := Option.map_eq_some_iff.mp h
        exact .publication (.inl rfl) hp ⟨by simp, by simp, fun q => .inl (by simp [hpc])⟩
    next => cases h
  | stop =>
    cases h
    exact .stop
  | dispatchCycle cursor =>
    obtain ⟨p, hp, rfl⟩ := Option.map_eq_some_iff.mp h
    exact .publication (.inr (.inl ⟨_, rfl⟩)) hp ⟨by simp, by simp, fun q => .inr (by simp)⟩
  | dispatch answer =>
    obtain ⟨p, hp, rfl⟩ := Option.map_eq_some_iff.mp h
    exact .publication (.inr (.inr ⟨_, rfl⟩)) hp ⟨by simp, by simp, fun q => .inr (by simp)⟩

/-! ## One queue -/

section
variable {T : Type*} {c : Capacity} {q x : MpscRithmicQueue.State ι T}

omit [DecidableEq ι] in
theorem popped_consume (c : Capacity) (q : MpscRithmicQueue.State ι T) :
    (consume c q).popped = q.popped ++ (popResult q).toList := by
  unfold consume popResult
  split
  next hk => simp [hk]
  next hk => split <;> simp [hk]
  next hk => simp [hk]
  next hk => simp [hk]
  next hk => simp [hk]

omit [DecidableEq ι] in
theorem consumer_consume_of_popResult {out : T} (h : popResult q = some out) :
    (consume c q).consumer = .idle := by
  unfold popResult at h
  split at h
  next hk => simp only [consume, hk]
  next => cases h

omit [DecidableEq ι] in
theorem consumer_consume_of_findsEmpty (h : findsEmpty c q = true) :
    (consume c q).consumer = .idle := by
  unfold findsEmpty at h
  split at h
  next hk =>
    simp only [consume, hk]
    rw [if_pos (of_decide_eq_true h)]
  next => cases h

/-- The gateway does not touch what belongs to the consumer. -/
theorem consumer_of_producerStep [Inhabited T] {a : MpscRithmicQueue.Action ι T}
    (ha : a ≠ .consume) (h : MpscRithmicQueue.step c q a = some x) :
    x.consumer = q.consumer ∧ x.popped = q.popped ∧ x.readPos = q.readPos := by
  cases a with
  | tryPush i e | push i e =>
    simp only [MpscRithmicQueue.step] at h
    split at h
    next =>
      cases h
      exact ⟨rfl, rfl, rfl⟩
    next => cases h
  | produce i =>
    simp only [MpscRithmicQueue.step, produce] at h
    repeat' split at h
    all_goals cases h <;> exact ⟨rfl, rfl, rfl⟩
  | consume => exact absurd rfl ha

end

/-! ## The invariant -/

structure Inv (s : State ι n) : Prop where
  queue : ∀ q, MpscRithmicQueue.Inv q.shmCapacity (s.shm q)
  /-- No other queue is in the middle of a `TryPop`. -/
  consumer : ∀ q, s.pc ≠ .polling q → (s.shm q).consumer = .idle
  /-- What was popped was handled, but for the event in hand. -/
  handled : ∀ q, (s.handled ++ s.pc.hand).filter (·.1 = q) = (s.shm q).popped.map (Sigma.mk q)

namespace Inv

variable {registry : ChannelRegistry} {s t : State ι n}

omit [DecidableEq ι] in
theorem init : Inv (init : State ι n) where
  queue _ := .init
  consumer _ _ := rfl
  handled _ := rfl

omit [DecidableEq ι] in
/-- A step that leaves the queues alone and keeps the event in hand. -/
theorem of_shm (h : Inv s) (hshm : t.shm = s.shm) (hpc : ∀ q, s.pc ≠ .polling q ∨ t.pc = s.pc)
    (hhandled : t.handled ++ t.pc.hand = s.handled ++ s.pc.hand) : Inv t where
  queue := hshm ▸ h.queue
  consumer q hq := by
    rw [hshm]
    rcases hpc q with hne | heq
    · exact h.consumer q hne
    · exact h.consumer q (heq ▸ hq)
  handled := by
    rw [hhandled, hshm]
    exact h.handled

theorem gateway (h : Inv s) {q : EventKind} {a : MpscRithmicQueue.Action ι q.Event}
    {x : MpscRithmicQueue.State ι q.Event} (ha : a ≠ .consume)
    (hdrop : DropsIntoFreedSlot q.shmCapacity (s.shm q) a)
    (hx : MpscRithmicQueue.step q.shmCapacity (s.shm q) a = some x) :
    Inv { s with shm := Function.update s.shm q x } := by
  obtain ⟨hconsumer, hpopped, -⟩ := consumer_of_producerStep ha hx
  refine ⟨fun r => ?_, fun r hr => ?_, fun r => ?_⟩
  · show MpscRithmicQueue.Inv r.shmCapacity (Function.update s.shm q x r)
    rcases eq_or_ne r q with rfl | hne
    · rw [Function.update_self]
      exact (h.queue r).step r.shmCapacity_exp_pos hdrop hx
    · rw [Function.update_of_ne hne]
      exact h.queue r
  · show (Function.update s.shm q x r).consumer = .idle
    rcases eq_or_ne r q with rfl | hne
    · rw [Function.update_self, hconsumer]
      exact h.consumer r hr
    · rw [Function.update_of_ne hne]
      exact h.consumer r hr
  · show _ = (Function.update s.shm q x r).popped.map (Sigma.mk r)
    rcases eq_or_ne r q with rfl | hne
    · rw [Function.update_self, hpopped]
      exact h.handled r
    · rw [Function.update_of_ne hne]
      exact h.handled r

omit [DecidableEq ι] in
theorem restart (h : Inv s) (hfree : ∀ q i, ((s.shm q).producers i).position = none) :
    Inv { s with shm := fun q => (s.shm q).kill } where
  queue q := (h.queue q).kill (hfree q)
  consumer := h.consumer
  handled := h.handled

omit [DecidableEq ι] in
theorem polled (h : Inv s) {q : EventKind} (hpc : s.pc = .polling q) :
    Inv { s with
      shm := Function.update s.shm q (consume q.shmCapacity (s.shm q))
      pc := afterPoll q (s.shm q) } := by
  have hhand : s.pc.hand = [] := by rw [hpc]; rfl
  have hother : ∀ r, r ≠ q → (s.shm r).consumer = .idle := fun r hr =>
    h.consumer r (by rw [hpc]; simpa using hr.symm)
  refine ⟨fun r => ?_, fun r hr => ?_, fun r => ?_⟩
  · show MpscRithmicQueue.Inv r.shmCapacity (Function.update s.shm q _ r)
    rcases eq_or_ne r q with rfl | hne
    · rw [Function.update_self]
      exact (h.queue r).consume r.shmCapacity_exp_pos
    · rw [Function.update_of_ne hne]
      exact h.queue r
  · show (Function.update s.shm q _ r).consumer = .idle
    rcases eq_or_ne r q with rfl | hne
    · -- the loop leaves the queue when its `TryPop` returns
      rw [Function.update_self]
      change afterPoll r (s.shm r) ≠ .polling r at hr
      unfold afterPoll at hr
      split at hr
      next out hout => exact consumer_consume_of_popResult hout
      next =>
        split at hr
        next hempty => exact consumer_consume_of_findsEmpty hempty
        next => exact absurd rfl hr
    · rw [Function.update_of_ne hne]
      exact hother r hne
  · show (s.handled ++ (afterPoll q (s.shm q)).hand).filter (·.1 = r) =
      (Function.update s.shm q _ r).popped.map (Sigma.mk r)
    have hnow := h.handled r
    rw [hhand, List.append_nil] at hnow
    have hnew : (afterPoll q (s.shm q)).hand = (popResult (s.shm q)).toList.map (Sigma.mk q) := by
      unfold afterPoll
      cases popResult (s.shm q) with
      | some out => rfl
      | none =>
        simp only
        split
        next => cases q <;> rfl
        next => rfl
    rw [hnew, List.filter_append, hnow]
    rcases eq_or_ne r q with rfl | hne
    · rw [Function.update_self, popped_consume, List.map_append]
      congr 1
      cases popResult (s.shm r) <;> simp
    · rw [Function.update_of_ne hne]
      cases popResult (s.shm q) <;> simp [hne.symm]

theorem step (h : Inv s) {a : Action ι n} (ha : Undisturbed s a)
    (hs : step registry s a = some t) : Inv t := by
  cases effect_of_step hs with
  | gateway hne hx => exact h.gateway hne ha hx
  | restart => exact h.restart ha
  | started hpc =>
    refine h.of_shm rfl (fun q => .inl (by simp [hpc])) ?_
    rw [hpc]
    rfl
  | tested hpc =>
    refine h.of_shm rfl (fun q => .inl (by simp [hpc])) ?_
    rw [hpc]
    cases s.running <;> rfl
  | polled hpc => exact h.polled hpc
  | handled hpc _ =>
    refine h.of_shm rfl (fun q => .inl (by simp [hpc])) ?_
    rw [hpc]
    exact List.append_nil _
  | published hpc =>
    refine h.of_shm rfl (fun q => .inl (by simp [hpc])) ?_
    rw [hpc]
    rfl
  | stop => exact h.of_shm rfl (fun q => .inr rfl) rfl
  | publication _ _ _ => exact h.of_shm rfl (fun q => .inr rfl) rfl

end Inv

theorem exec_inv {registry : ChannelRegistry} {as : List (Action ι n)} {s : State ι n}
    (hu : (machine ι registry n).Along Undisturbed init as)
    (hs : (machine ι registry n).exec init as = some s) : Inv s :=
  (machine ι registry n).exec_invariant (fun _ _ _ hI ha hstep => hI.step ha hstep) .init hu hs

/-! ## Which queue is served -/

/-- A step in which the receiver finds queue `q` empty. -/
def FindsEmpty (q : EventKind) : State ι n × Action ι n → Bool
  | (s, .receive _) =>
    match s.pc with
    | .polling r => decide (r = q) && findsEmpty r.shmCapacity (s.shm r)
    | _ => false
  | _ => false

def emptyPolls (q : EventKind) (steps : List (State ι n × Action ι n)) : Nat :=
  steps.countP (FindsEmpty q)

/-- The receiver is in the `TryPop` of queue `k`. -/
def Pc.polls (k : EventKind) : Pc → Nat
  | .polling q => if q = k then 1 else 0
  | _ => 0

/-- The events of kind `k` that were popped. -/
def State.taken (s : State ι n) (k : EventKind) : Nat :=
  (s.handled ++ s.pc.hand).countP (·.1 = k)

omit [DecidableEq ι] in
theorem findsEmpty_eq_false_of_popResult {T : Type*} {c : Capacity}
    {q : MpscRithmicQueue.State ι T} {out : T} (h : popResult q = some out) :
    findsEmpty c q = false := by
  unfold popResult at h
  split at h
  next hk => simp only [findsEmpty, hk]
  next => cases h

omit [DecidableEq ι] in
theorem findsEmpty_eq_false {s : State ι n} {a : Action ι n} {k : EventKind}
    (h : ∀ q, s.pc ≠ .polling q ∨ ∀ nowNs, a ≠ .receive nowNs) : FindsEmpty k (s, a) = false := by
  cases a with
  | receive nowNs =>
    cases hpc : s.pc with
    | polling q => exact absurd rfl (((h q).resolve_left (not_not.mpr hpc)) nowNs)
    | _ => simp only [FindsEmpty, hpc]
  | _ => rfl

omit [DecidableEq ι] in
/-- An operation of the `TryPop` of queue `q`: queue `k`, which is served behind queue `before`,
is either still polled, or an event was taken from it, or it was found empty. -/
theorem polled_rounds {s : State ι n} {q : EventKind} (nowNs : UInt64) (hpc : s.pc = .polling q)
    {k before : EventKind} (hk : ∀ r, (afterEmpty r).polls k = if r = before then 1 else 0)
    (shm : Shm.State ι EventKind.Event) :
    ({ s with shm := shm, pc := afterPoll q (s.shm q) } : State ι n).taken k +
        (afterPoll q (s.shm q)).polls k + (if FindsEmpty k (s, .receive nowNs) then 1 else 0) =
      s.taken k + s.pc.polls k +
        (if FindsEmpty before (s, Action.receive nowNs) then 1 else 0) := by
  have htaken : s.taken k = s.handled.countP (·.1 = k) := by
    rw [State.taken, hpc]
    exact congrArg (List.countP _) (List.append_nil _)
  have hpolls : s.pc.polls k = if q = k then 1 else 0 := by rw [hpc]; rfl
  have hfinds : ∀ r, FindsEmpty r (s, Action.receive nowNs) =
      (decide (q = r) && findsEmpty q.shmCapacity (s.shm q)) := fun r => by
    simp only [FindsEmpty, hpc]
  rw [htaken, hpolls, hfinds, hfinds, State.taken, List.countP_append]
  unfold afterPoll
  cases hres : popResult (s.shm q) with
  | some out =>
    -- the event goes to the handler
    rw [findsEmpty_eq_false_of_popResult hres]
    simp only [Pc.hand, Pc.polls, List.countP_singleton, Bool.and_false, Bool.false_eq_true,
      if_false, decide_eq_true_eq]
  | none =>
    cases hempty : findsEmpty q.shmCapacity (s.shm q) with
    | true =>
      have hnone : (afterEmpty q).hand = [] := by cases q <;> rfl
      simp only [if_true, hnone, List.countP_nil, hk, Bool.and_true, decide_eq_true_eq]
      omega
    | false =>
      simp only [Bool.false_eq_true, if_false, Pc.hand, List.countP_nil, Pc.polls, Bool.and_false]
      omega

/-- A step that is not one of a `TryPop` leaves the kinds other than ticks alone. -/
theorem step_rounds {registry : ChannelRegistry} {s t : State ι n} {a : Action ι n}
    (h : step registry s a = some t) (k before : EventKind) (htick : k ≠ .tick)
    (hk : ∀ r, (afterEmpty r).polls k = if r = before then 1 else 0) :
    t.taken k + t.pc.polls k + (if FindsEmpty k (s, a) then 1 else 0) =
      s.taken k + s.pc.polls k + (if FindsEmpty before (s, a) then 1 else 0) := by
  have hquiet : (∀ q, s.pc ≠ .polling q ∨ ∀ nowNs, a ≠ .receive nowNs) →
      t.taken k + t.pc.polls k = s.taken k + s.pc.polls k →
      t.taken k + t.pc.polls k + (if FindsEmpty k (s, a) then 1 else 0) =
        s.taken k + s.pc.polls k + (if FindsEmpty before (s, a) then 1 else 0) := by
    intro hnot heq
    simp only [findsEmpty_eq_false hnot, heq]
  cases effect_of_step h with
  | gateway _ _ => exact hquiet (fun _ => .inr (by simp)) rfl
  | restart => exact hquiet (fun _ => .inr (by simp)) rfl
  | started hpc =>
    refine hquiet (fun _ => .inl (by simp [hpc])) ?_
    simp [State.taken, hpc, Pc.hand, Pc.polls]
  | tested hpc =>
    refine hquiet (fun _ => .inl (by simp [hpc])) ?_
    cases hrunning : s.running <;> simp [State.taken, hpc, Pc.hand, Pc.polls, htick.symm]
  | polled hpc => exact polled_rounds _ hpc hk _
  | handled hpc _ =>
    refine hquiet (fun _ => .inl (by simp [hpc])) ?_
    simp [State.taken, hpc, Pc.hand, Pc.polls]
  | published hpc =>
    refine hquiet (fun _ => .inl (by simp [hpc])) ?_
    simp [State.taken, hpc, Pc.hand, Pc.polls]
  | stop => exact hquiet (fun _ => .inr (by simp)) rfl
  | publication _ _ hq => exact hquiet hq.2.2 rfl

/-- How often each queue was served. -/
structure Rounds (steps : List (State ι n × Action ι n)) (s : State ι n) : Prop where
  bookTicker : emptyPolls .tick steps =
    s.taken .bookTicker + s.pc.polls .bookTicker + emptyPolls .bookTicker steps
  depth : emptyPolls .bookTicker steps =
    s.taken .depth + s.pc.polls .depth + emptyPolls .depth steps

omit [DecidableEq ι] in
theorem emptyPolls_concat (q : EventKind) (steps : List (State ι n × Action ι n))
    (p : State ι n × Action ι n) :
    emptyPolls q (steps ++ [p]) = emptyPolls q steps + if FindsEmpty q p then 1 else 0 := by
  rw [emptyPolls, List.countP_append, List.countP_singleton]
  rfl

theorem Rounds.step {registry : ChannelRegistry} {s t : State ι n} {a : Action ι n}
    {steps : List (State ι n × Action ι n)} (h : Rounds steps s)
    (hs : step registry s a = some t) : Rounds (steps ++ [(s, a)]) t := by
  have hbook := step_rounds hs .bookTicker .tick (by decide)
    (fun r => by cases r <;> rfl)
  have hdepth := step_rounds hs .depth .bookTicker (by decide)
    (fun r => by cases r <;> rfl)
  have := h.bookTicker
  have := h.depth
  constructor
  · rw [emptyPolls_concat, emptyPolls_concat]
    omega
  · rw [emptyPolls_concat, emptyPolls_concat]
    omega

/-- Ticks are served first. -/
structure TicksFirst (steps : List (State ι n × Action ι n)) (s : State ι n) : Prop where
  /-- Every event that is not a tick has its own moment in which there was no tick to be popped. -/
  others_le : s.handled.countP (·.1 ≠ .tick) ≤ emptyPolls .tick steps
  /-- Every depth event has its own moment in which there was no book ticker to be popped. -/
  depths_le : s.handled.countP (·.1 = .depth) ≤ emptyPolls .bookTicker steps
  /-- In such a moment the push of the next event of that queue had not finished. -/
  unpublished : ∀ q, ∀ p ∈ steps, FindsEmpty q p = true →
    (p.1.shm q).outcomes (p.1.shm q).readPos = none

omit [DecidableEq ι] in
theorem Inv.unpublished {s : State ι n} (h : Inv s) {a : Action ι n} {q : EventKind}
    (ha : FindsEmpty q (s, a) = true) : (s.shm q).outcomes (s.shm q).readPos = none := by
  cases a with
  | receive nowNs =>
    cases hpc : s.pc with
    | polling r =>
      simp only [FindsEmpty, hpc, Bool.and_eq_true, decide_eq_true_eq] at ha
      obtain ⟨rfl, hempty⟩ := ha
      unfold findsEmpty at hempty
      split at hempty
      next pos hk =>
        have hok := (h.queue r).consumer
        rw [hk] at hok
        have hfreed : (s.shm r).freed = (s.shm r).readPos := by simp only [State.freed, hk]
        have hseq := (h.queue r).sequence_eq (Nat.le_of_eq hfreed)
          (by have := r.shmCapacity.val_pos; omega)
        cases hout : (s.shm r).outcomes (s.shm r).readPos with
        | none => rfl
        | some o =>
          rw [hout, Option.isSome_some, if_pos rfl] at hseq
          change pos = (s.shm r).readPos at hok
          rw [hok] at hempty
          exact absurd hseq (of_decide_eq_true hempty)
      next => cases hempty
    | _ => simp [FindsEmpty, hpc] at ha
  | _ => cases ha

omit [DecidableEq ι] in
theorem countP_handled_le (s : State ι n) (p : Event → Bool) :
    s.handled.countP p ≤ (s.handled ++ s.pc.hand).countP p :=
  (List.sublist_append_left _ _).countP_le

/-- What holds of the steps of a run. -/
structure Served (steps : List (State ι n × Action ι n)) (s : State ι n) : Prop where
  inv : Inv s
  rounds : Rounds steps s
  unpublished : ∀ q, ∀ p ∈ steps, FindsEmpty q p = true →
    (p.1.shm q).outcomes (p.1.shm q).readPos = none

namespace Served

omit [DecidableEq ι] in
theorem init : Served [] (init : State ι n) where
  inv := .init
  rounds := ⟨rfl, rfl⟩
  unpublished _ := List.forall_mem_nil _

theorem step {registry : ChannelRegistry} {s t : State ι n} {a : Action ι n}
    {steps : List (State ι n × Action ι n)} (h : Served steps s) (ha : Undisturbed s a)
    (hs : step registry s a = some t) : Served (steps ++ [(s, a)]) t where
  inv := h.inv.step ha hs
  rounds := h.rounds.step hs
  unpublished q :=
    List.forall_mem_append.mpr ⟨h.unpublished q, List.forall_mem_singleton.mpr h.inv.unpublished⟩

end Served

/-- In every run in which sentinels only go into freed slots and kills fall between pushes. -/
theorem lower_after_empty (registry : ChannelRegistry) (as : List (Action ι n)) (s : State ι n)
    (hu : (machine ι registry n).Along Undisturbed init as)
    (hs : (machine ι registry n).exec init as = some s) :
    TicksFirst ((machine ι registry n).trace init as) s := by
  have hserved : Served ((machine ι registry n).trace init as) s :=
    (machine ι registry n).exec_trace (R := Served) (fun _ _ _ _ h ha hstep => h.step ha hstep)
      .init hu hs
  have hrounds := hserved.rounds
  have hbook := hrounds.bookTicker
  have hdepth := hrounds.depth
  simp only [State.taken] at hbook hdepth
  have hbook_le := countP_handled_le s (·.1 = .bookTicker)
  have hdepth_le := countP_handled_le s (·.1 = .depth)
  refine ⟨?_, by omega, hserved.unpublished⟩
  have hsplit : s.handled.countP (·.1 ≠ .tick) =
      s.handled.countP (·.1 = .bookTicker) + s.handled.countP (·.1 = .depth) := by
    induction s.handled with
    | nil => rfl
    | cons e es ih =>
      simp only [List.countP_cons, ih]
      obtain ⟨k, e⟩ := e
      cases k <;> simp <;> omega
  omega

/-- A registry with one future. -/
def oneFuture : ChannelRegistry := fun channelId =>
  if channelId = 7 then
    some { exchange := "CME", type := .futures, symbol := "ES", topicPrefix := "CME.futures.ES" }
  else none

/-- The gateway pushes a depth event, then a tick; the receiver takes the tick first. -/
def tickOvertakesDepth : List (Action Unit 1) :=
  [.gateway .depth (.push () { (default : DepthUpdateEvent) with channelId := 7 })] ++
    List.replicate 3 (.gateway .depth (.produce ())) ++
    [.gateway .tick (.tryPush () { (default : TickData) with channelId := 7 })] ++
    List.replicate 3 (.gateway .tick (.produce ())) ++ List.replicate 27 (.receive 0)

instance (s : State ι n) [Fintype ι] : ∀ a, Decidable (Undisturbed s a)
  | .gateway q a => inferInstanceAs (Decidable (DropsIntoFreedSlot q.shmCapacity (s.shm q) a))
  | .restart => inferInstanceAs (Decidable (∀ q i, ((s.shm q).producers i).position = none))
  | .receive _ | .stop | .dispatchCycle _ | .dispatch _ => isTrue trivial

theorem tickOvertakesDepth_ticksFirst :
    (machine Unit oneFuture 1).Along Undisturbed init tickOvertakesDepth ∧
    ((machine Unit oneFuture 1).exec init tickOvertakesDepth).map
      (·.handled.map Sigma.fst) = some [.tick, .depth] ∧
    ∀ s, (machine Unit oneFuture 1).exec init tickOvertakesDepth = some s →
      TicksFirst ((machine Unit oneFuture 1).trace init tickOvertakesDepth) s :=
  ⟨by decide +kernel, by decide +kernel,
    fun s hs => lower_after_empty oneFuture tickOvertakesDepth s (by decide +kernel) hs⟩

/-! ## What is left behind -/

/-- What has become of the events whose push has returned true. -/
structure Accounted (registry : ChannelRegistry) (s : State ι n) : Prop where
  /-- Such an event was handled in its turn, or is in hand, or is one of those in the queue. -/
  accepted : ∀ {q p e}, (s.shm q).outcomes p = some (.accepted e) →
    ((s.handled ++ s.pc.hand).filter (·.1 = q))[p]? = some ⟨q, e⟩ ∨
    (s.taken q ≤ p ∧ p < s.taken q + q.shmCapacity.val)
  /-- Behind `Run` nothing is in hand and nothing is handled any more. -/
  exited : s.pc = .exited → s.pc.hand = [] ∧ ∀ {bs t},
    (machine ι registry n).exec s bs = some t → t.pc = .exited ∧ t.handled = s.handled

theorem step_exited {registry : ChannelRegistry} {s t : State ι n} {a : Action ι n}
    (h : s.pc = .exited) (hs : step registry s a = some t) :
    t.pc = .exited ∧ t.handled = s.handled := by
  cases effect_of_step hs with
  | gateway _ _ | restart | stop | publication _ _ _ => exact ⟨h, rfl⟩
  | started hpc | tested hpc | polled hpc | handled hpc _ | published hpc => cases h.symm.trans hpc

/-- In every run in which sentinels only go into freed slots and kills fall between pushes: what was
accepted and is not handled lies in the queues, at most a queue full of each kind. -/
theorem unhandled_lt (registry : ChannelRegistry) (as : List (Action ι n)) (s : State ι n)
    (hu : (machine ι registry n).Along Undisturbed init as)
    (hs : (machine ι registry n).exec init as = some s) : Accounted registry s := by
  have hinv := exec_inv hu hs
  have hlen : ∀ q, s.taken q = (s.shm q).freed := by
    intro q
    rw [State.taken, List.countP_eq_length_filter, hinv.handled q, List.length_map]
    exact (hinv.queue q).popped_length
  refine ⟨fun {q p e} he => ?_, fun hexited => ⟨by rw [hexited]; rfl, fun {bs t} ht => ?_⟩⟩
  · rcases Nat.lt_or_ge p (s.taken q) with hlt | hge
    · left
      rw [hlen, ← (hinv.queue q).popped_length] at hlt
      obtain ⟨o, ho, hv⟩ := (hinv.queue q).popped_value (List.getElem?_eq_getElem hlt)
      cases he.symm.trans ho
      rw [hinv.handled q, List.getElem?_map, List.getElem?_eq_getElem hlt, hv]
      rfl
    · right
      refine ⟨hge, ?_⟩
      rw [hlen]
      exact ((hinv.queue q).outcome_lt he).2
  · refine (machine ι registry n).exec_invariant (C := fun _ _ => True)
      (I := fun t => t.pc = .exited ∧ t.handled = s.handled) (fun u a v hI _ hv => ?_)
      ⟨hexited, rfl⟩ (Machine.along_true _) ht
    obtain ⟨hpc, heq⟩ := step_exited hI.1 hv
    exact ⟨hpc, heq.trans hI.2⟩

/-- `Stop` when the receiver has published the tick. -/
def stopBeforeDepth : List (Action Unit 1) := tickOvertakesDepth.take 20 ++ [.stop, .receive 0]

theorem stopBeforeDepth_accounted :
    (machine Unit oneFuture 1).Along Undisturbed init stopBeforeDepth ∧
    ((machine Unit oneFuture 1).exec init stopBeforeDepth).map (fun s =>
      ((s.shm .depth).outcomes 0).isSome && s.handled.length == 1) = some true ∧
    ∀ s, (machine Unit oneFuture 1).exec init stopBeforeDepth = some s →
      Accounted oneFuture s :=
  ⟨by decide +kernel, by decide +kernel,
    fun s hs => unhandled_lt oneFuture stopBeforeDepth s (by decide +kernel) hs⟩

end RithmicReceiver

end Sqc
