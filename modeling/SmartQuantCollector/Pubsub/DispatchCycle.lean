import SmartQuantCollector.Exchange.ChannelMapping
import SmartQuantCollector.Pubsub.PubWorker

/-! # From `DataDispatcher` to the ZMQ socket (`src/exchange/data_dispatcher.cpp`,
`src/pubsub/pub_worker.cpp`)

The publishing threads of `PubWorker` together with the pub thread: `DispatchCycle` goes round the
queues from any cursor, `TrySendOne` pops one event, and `SendTyped` makes a topic for it and hands
it to the buffer pool and to the socket, which may refuse it. Storage and telemetry are left out:
the dispatcher publishes whatever they do.

`sent` lists the events that were sent, each with the queue it came from; `published` and `drops`
count the calls of `Publish*` and the increments of the three drop counters. -/

namespace Sqc
open Concurrency

/-- The `channel_id` of an event. -/
def EventKind.Event.channelId : {k : EventKind} → k.Event → UInt32
  | .tick, t => TickData.channelId t
  | .depth, e => DepthUpdateEvent.channelId e
  | .bookTicker, e => BookTickerEvent.channelId e

/-! ## `DataDispatcher` -/

namespace DataDispatcher

/-- What `OnTick` publishes. -/
def onTick (registry : ChannelRegistry) (tick : TickData) (nowNs : UInt64) : Option TickData :=
  (registry tick.channelId).map fun _ =>
    { tick with localDiff := nowNs - tick.localDiff, padding := Vector.replicate 3 0 }

def onDepth (registry : ChannelRegistry) (channelId : UInt32) (event : DepthUpdateEvent) :
    Option DepthUpdateEvent := (registry channelId).map fun _ => event

def onBookTicker (registry : ChannelRegistry) (channelId : UInt32) (event : BookTickerEvent)
    (nowNs : UInt64) : Option BookTickerEvent :=
  (registry channelId).map fun _ => { event with localDiff := nowNs - event.localDiff }

/-- The handler for events of a kind, called with the event's own channel id. -/
def onEvent (registry : ChannelRegistry) : (k : EventKind) → k.Event → UInt64 → Option k.Event
  | .tick, tick, nowNs => onTick registry tick nowNs
  | .depth, event, _ => onDepth registry (DepthUpdateEvent.channelId event) event
  | .bookTicker, event, nowNs =>
    onBookTicker registry (BookTickerEvent.channelId event) event nowNs

/-- What is published belongs to the same channel, which is registered. -/
theorem onEvent_eq_some {registry : ChannelRegistry} {k : EventKind} {item out : k.Event}
    {nowNs : UInt64} (h : onEvent registry k item nowNs = some out) :
    out.channelId = item.channelId ∧ (registry out.channelId).isSome = true := by
  cases k with
  | tick | depth | bookTicker =>
    obtain ⟨info, hinfo, rfl⟩ := Option.map_eq_some_iff.mp h
    exact ⟨rfl, Option.isSome_iff_exists.mpr ⟨info, hinfo⟩⟩

end DataDispatcher

/-! ## `SendTyped` -/

namespace PubWorker

def kMaxTopicLen : Int := 64

def eventSuffix : EventKind → String
  | .tick => "tick"
  | .depth => "depth"
  | .bookTicker => "book_ticker"

/-- `static_cast<int>` of a size. -/
def toInt (size : Nat) : Int := (BitVec.ofNat 32 size).toInt

/-- How many bytes `%.*s` writes for a string and its size: those before the first zero, at most the
precision, which is without effect when it is negative. -/
def printedSize (s : String) : Nat :=
  let bytes := s.toUTF8.toList.takeWhile (· ≠ 0)
  if toInt s.utf8ByteSize < 0 then bytes.length else min bytes.length (toInt s.utf8ByteSize).toNat

/-- The result of `snprintf`, which is negative when it does not fit an `int`. -/
def topicLen (topic suffix : String) : Int :=
  let size := printedSize topic + 1 + printedSize suffix
  if size < 2 ^ 31 then size else -1

/-- The pool has a buffer, and the socket takes the two frames. -/
structure SendAnswer where
  acquired : Bool := true
  topicSent : Bool := true
  payloadSent : Bool := true

/-- How `SendTyped` ends. -/
inductive Outcome where
  /-- There is no topic for the event. -/
  | noTopic
  | noBuffer
  | refused
  | sent
deriving DecidableEq

def sendTyped (registry : ChannelRegistry) (k : EventKind) (channelId : UInt32)
    (answer : SendAnswer) : Outcome :=
  match registry channelId with
  | none => .noTopic
  | some info =>
    if info.topicPrefix = "" then .noTopic
    else
      let len := topicLen info.topicPrefix (eventSuffix k)
      if len < 0 ∨ len ≥ kMaxTopicLen then .noTopic
      else if !answer.acquired then .noBuffer
      else if !answer.topicSent then .refused
      else if !answer.payloadSent then .refused
      else .sent

/-! ## `DispatchCycle` -/

/-- The variables of `DispatchCycle`. -/
structure Cycle where
  cursor : UInt64
  i : Nat := 0
  anyWork : Bool := false
deriving DecidableEq

/-- The next round of the loop, after what `TrySendOne` has returned. -/
def Cycle.next (c : Cycle) (work : Bool) : Cycle :=
  { c with i := c.i + 1, anyWork := c.anyWork || work }

/-- The queues of a shard by `queue_type`. -/
def queueType : Nat → EventKind
  | 0 => .tick
  | 1 => .depth
  | _ => .bookTicker

variable {n : Nat}

theorem shard_lt {n idx : Nat} (h : 0 < n * 3) : idx % (n * 3) / 3 < n :=
  Nat.div_lt_of_lt_mul (Nat.mul_comm n 3 ▸ Nat.mod_lt idx h)

/-- The queue that round `i` looks at. -/
def Cycle.queue (c : Cycle) (h : c.i < n * 3) : QueueId n :=
  let idx := (c.cursor + .ofNat c.i).toNat % (n * 3)
  ⟨⟨idx / 3, shard_lt (Nat.lt_of_le_of_lt (Nat.zero_le _) h)⟩, queueType (idx % 3)⟩

end PubWorker

/-! ## The threads -/

namespace Publication
open PubWorker

/-- An event and the queue that it goes through. -/
abbrev Queued (n : Nat) := Σ j : QueueId n, j.kind.Event

/-- Where the pub thread stands. -/
inductive PubThread (n : Nat) where
  /-- Outside `DispatchCycle`, with what the last call has left in its arguments. -/
  | outside (cursor : UInt64) (anyWork : Bool)
  | looping (c : Cycle)
  /-- In the `try_pop` of `TrySendOne`. -/
  | popping (c : Cycle) (j : QueueId n)
  /-- Before `SendTyped`. -/
  | sending (c : Cycle) (event : Queued n)

/-- The event that is popped and not yet sent. -/
def PubThread.hand {n : Nat} : PubThread n → List (Queued n)
  | .sending _ event => [event]
  | _ => []

structure State (n : Nat) where
  worker : PubWorker.State n EventKind.Event
  pub : PubThread n
  droppedBufferCount : UInt64 := 0
  droppedHwmCount : UInt64 := 0
  published : Nat := 0
  sent : List (Queued n) := []
  drops : Nat := 0

/-- `dropped_count` -/
def State.droppedCount {n : Nat} (s : State n) : UInt64 :=
  s.worker.droppedQueueCount + s.droppedBufferCount + s.droppedHwmCount

inductive Action (n : Nat) where
  /-- Thread `t` calls its `DataDispatcher`. -/
  | onEvent (t : Thread n) (k : EventKind) (item : k.Event) (nowNs : UInt64)
  /-- The next operation of the publish in progress on thread `t`. -/
  | advance (t : Thread n)
  | dispatchCycle (cursor : UInt64)
  /-- The next operation of the pub thread in `DispatchCycle`. -/
  | dispatch (answer : SendAnswer)

variable {n : Nat} {registry : ChannelRegistry} {s t : State n}

/-- The handler returns at once when the channel is not registered. -/
def onEvent (registry : ChannelRegistry) (s : State n) (t : Thread n) (k : EventKind)
    (item : k.Event) (nowNs : UInt64) : Option (State n) :=
  match DataDispatcher.onEvent registry k item nowNs with
  | none => if s.worker.publishing t = .outside then some s else none
  | some out =>
    (publish s.worker t k out).map fun w => { s with worker := w, published := s.published + 1 }

def advance (s : State n) (t : Thread n) : Option (State n) :=
  (PubWorker.advance s.worker t).map fun w =>
    { s with
      worker := w
      drops := if s.worker.publishing t = .countDrop then s.drops + 1 else s.drops }

/-- What `SendTyped` leaves behind. -/
def State.record (s : State n) (event : Queued n) : Outcome → State n
  | .noTopic => s
  | .noBuffer => { s with droppedBufferCount := s.droppedBufferCount + 1, drops := s.drops + 1 }
  | .refused => { s with droppedHwmCount := s.droppedHwmCount + 1, drops := s.drops + 1 }
  | .sent => { s with sent := s.sent ++ [event] }

/-- An operation of `try_pop`; an event that it returns is sent next. -/
def pop (s : State n) (c : Cycle) (j : QueueId n) : State n :=
  let w := consume s.worker j
  { s with
    worker := w
    pub := match RingQueue.popResult (s.worker.shardQueues j) with
      | some item => .sending c ⟨j, item⟩
      | none =>
        if (w.shardQueues j).consumer.isIdle then .looping (c.next false) else .popping c j }

def send (registry : ChannelRegistry) (s : State n) (c : Cycle) (event : Queued n)
    (answer : SendAnswer) : State n :=
  let outcome := sendTyped registry event.1.kind event.2.channelId answer
  { s.record event outcome with pub := .looping (c.next (outcome = .sent)) }

def dispatch (registry : ChannelRegistry) (s : State n) (answer : SendAnswer) :
    Option (State n) :=
  match s.pub with
  | .outside .. => none
  | .looping c =>
    if h : c.i < n * 3 then some { s with pub := .popping c (c.queue h) }
    else some { s with pub := .outside ((c.cursor + 1) % .ofNat (n * 3)) c.anyWork }
  | .popping c j => some (pop s c j)
  | .sending c event => some (send registry s c event answer)

def step (registry : ChannelRegistry) (s : State n) : Action n → Option (State n)
  | .onEvent t k item nowNs => onEvent registry s t k item nowNs
  | .advance t => advance s t
  | .dispatchCycle cursor =>
    match s.pub with
    | .outside .. => some { s with pub := .looping { cursor := cursor } }
    | _ => none
  | .dispatch answer => dispatch registry s answer

def init (n : Nat) : State n where
  worker := PubWorker.init n EventKind.Event
  pub := .outside 0 false

def machine (registry : ChannelRegistry) (n : Nat) : Machine (State n) (Action n) where
  init := init n
  step := step registry

/-! ## What a step does -/

/-- The steps, by what they do to the queues. -/
inductive StepEffect (registry : ChannelRegistry) (s : State n) : Action n → State n → Prop where
  | ignored {u k item nowNs} : StepEffect registry s (.onEvent u k item nowNs) s
  | outOfRange {u k item nowNs} (shard : ¬ u.shardIdx < n) :
      StepEffect registry s (.onEvent u k item nowNs) { s with published := s.published + 1 }
  | publish {u : Thread n} {k : EventKind} {item out : k.Event} {nowNs : UInt64}
      {q : RingQueue.State (Thread n) k.Event} (shard : u.shardIdx < n)
      (handler : DataDispatcher.onEvent registry k item nowNs = some out)
      (publishing : s.worker.publishing u = .outside)
      (push : RingQueue.tryPush (s.worker.shardQueues ⟨⟨u.shardIdx, shard⟩, k⟩) u out = some q) :
      StepEffect registry s (.onEvent u k item nowNs)
        { s with
          worker := (s.worker.setQueue ⟨⟨u.shardIdx, shard⟩, k⟩ q).setPublishing u
            (.tryPush ⟨⟨u.shardIdx, shard⟩, k⟩)
          published := s.published + 1 }
  | produce {u : Thread n} {j : QueueId n} {q : RingQueue.State (Thread n) j.kind.Event}
      (publishing : s.worker.publishing u = .tryPush j)
      (produce : RingQueue.produce (ring EventKind.Event j.kind) (s.worker.shardQueues j) u =
        some q) :
      StepEffect registry s (.advance u)
        { s with
          worker := (s.worker.setQueue j q).setPublishing u <|
            match RingQueue.pushResult (ring EventKind.Event j.kind) (s.worker.shardQueues j) u with
            | none => .tryPush j
            | some true => .outside
            | some false => .countDrop }
  | countDrop {u} (publishing : s.worker.publishing u = .countDrop) :
      StepEffect registry s (.advance u)
        { s with
          worker := { s.worker with
            droppedQueueCount := s.worker.droppedQueueCount + 1 }.setPublishing u .outside
          drops := s.drops + 1 }
  /-- The pub thread goes on outside a `try_pop`. -/
  | turn {a} (p : PubThread n) (before : s.pub.hand = []) (after : p.hand = [])
      (popping : ∀ c j, s.pub ≠ .popping c j) : StepEffect registry s a { s with pub := p }
  | pop {answer c j} (pub : s.pub = .popping c j) :
      StepEffect registry s (.dispatch answer) (pop s c j)
  | send {answer c event} (pub : s.pub = .sending c event) :
      StepEffect registry s (.dispatch answer) (send registry s c event answer)

theorem stepEffect {a : Action n} (h : step registry s a = some t) : StepEffect registry s a t := by
  cases a with
  | onEvent u k item nowNs =>
    simp only [step, onEvent] at h
    split at h
    next =>
      split at h
      · cases h
        exact .ignored
      · cases h
    next out hout =>
      obtain ⟨w, hw, rfl⟩ := Option.map_eq_some_iff.mp h
      simp only [PubWorker.publish] at hw
      split at hw
      next hu =>
        split at hw
        next hlt =>
          obtain ⟨q, hq, rfl⟩ := Option.map_eq_some_iff.mp hw
          exact .publish hlt hout hu hq
        next hge =>
          cases hw
          exact .outOfRange hge
      next => cases hw
  | advance u =>
    obtain ⟨w, hw, rfl⟩ := Option.map_eq_some_iff.mp h
    simp only [PubWorker.advance] at hw
    split at hw
    next => cases hw
    next j hu =>
      obtain ⟨q, hq, rfl⟩ := Option.map_eq_some_iff.mp hw
      have hne : s.worker.publishing u ≠ .countDrop := by simp [hu]
      simp only [if_neg hne]
      exact .produce hu hq
    next hu =>
      cases hw
      simp only [if_pos hu]
      exact .countDrop hu
  | dispatchCycle cursor =>
    simp only [step] at h
    split at h
    next hpub =>
      cases h
      exact .turn _ (by rw [hpub]; rfl) rfl (by simp [hpub])
    next => cases h
  | dispatch answer =>
    simp only [step, dispatch] at h
    split at h
    next => cases h
    next c hpub =>
      split at h
      · cases h
        exact .turn _ (by rw [hpub]; rfl) rfl (by simp [hpub])
      · cases h
        exact .turn _ (by rw [hpub]; rfl) rfl (by simp [hpub])
    next hpub =>
      cases h
      exact .pop hpub
    next hpub =>
      cases h
      exact .send hpub

@[simp] theorem State.record_worker (s : State n) (event : Queued n) (o : Outcome) :
    (s.record event o).worker = s.worker := by
  cases o <;> rfl

@[simp] theorem send_worker (s : State n) (c : Cycle) (event : Queued n) (answer : SendAnswer) :
    (send registry s c event answer).worker = s.worker :=
  s.record_worker event _

theorem pop_hand (s : State n) (c : Cycle) (j : QueueId n) : (pop s c j).pub.hand =
    (RingQueue.popResult (s.worker.shardQueues j)).toList.map (Sigma.mk j) := by
  unfold pop
  cases RingQueue.popResult (s.worker.shardQueues j) with
  | some item => rfl
  | none =>
    dsimp only
    split <;> rfl

/-! ## The queues -/

/-- No thread starts a push on a queue while another one is in a push on the same queue. -/
def SoleProducer (registry : ChannelRegistry) (s : State n) : Action n → Prop
  | .onEvent u k item _ => (registry item.channelId).isSome = true → ∀ h : u.shardIdx < n,
      RingQueue.Exclusive (s.worker.shardQueues ⟨⟨u.shardIdx, h⟩, k⟩)
  | _ => True

structure Inv (s : State n) : Prop where
  worker : PubWorker.Inv s.worker
  popping : ∀ {j}, s.worker.popping = some j → ∃ c, s.pub = .popping c j

namespace Inv

theorem init : Inv (init n) := ⟨.init, fun h => by cases h⟩

theorem pop {c : Cycle} {j : QueueId n} (h : Inv s) (hpub : s.pub = .popping c j) :
    Inv (pop s c j) := by
  have hpopping : s.worker.popping = none ∨ s.worker.popping = some j := by
    cases hp : s.worker.popping with
    | none => exact .inl rfl
    | some i =>
      obtain ⟨c', hc'⟩ := h.popping hp
      cases hpub.symm.trans hc'
      exact .inr rfl
  refine ⟨h.worker.consume hpopping, fun {i} hi => ?_⟩
  -- the `try_pop` goes on, so it has not returned
  simp only [Publication.pop, consume] at hi ⊢
  split at hi
  next => cases hi
  next hidle =>
    cases hi
    cases hres : RingQueue.popResult (s.worker.shardQueues j) with
    | some item => exact absurd (by rw [RingQueue.consume_idle_of_popResult hres]; rfl) hidle
    | none =>
      refine ⟨c, if_neg ?_⟩
      simpa only [State.setQueue, Function.update_self] using hidle

theorem step {a : Action n} (h : Inv s) (hsole : SoleProducer registry s a)
    (hs : step registry s a = some t) : Inv t := by
  cases stepEffect hs with
  | ignored => exact h
  | outOfRange => exact ⟨h.worker, h.popping⟩
  | publish hlt hout _ hq =>
    obtain ⟨hid, hsome⟩ := DataDispatcher.onEvent_eq_some hout
    have hinv := (h.worker.queue _).tryPush (hsole (hid ▸ hsome) hlt) hq
    obtain ⟨-, rfl⟩ := RingQueue.tryPush_eq_some hq
    exact ⟨h.worker.push hinv rfl, h.popping⟩
  | produce _ hq =>
    exact ⟨h.worker.push ((h.worker.queue _).produce (ring_lawful _) hq)
      (RingQueue.produce_consumer hq).1, h.popping⟩
  | countDrop => exact ⟨⟨h.worker.queue, h.worker.consumer⟩, h.popping⟩
  | turn p _ _ hne =>
    refine ⟨h.worker, fun {j} hj => ?_⟩
    obtain ⟨c, hc⟩ := h.popping hj
    exact absurd hc (hne c j)
  | pop hpub => exact h.pop hpub
  | @send answer c event hpub =>
    refine ⟨?_, fun {j} hj => ?_⟩
    · rw [send_worker]
      exact h.worker
    · rw [send_worker] at hj
      obtain ⟨c', hc'⟩ := h.popping hj
      cases hpub.symm.trans hc'

end Inv

/-! ## The events -/

/-- The events on their way have the property `P`. -/
structure Carries (P : ∀ j : QueueId n, j.kind.Event → Prop) (s : State n) : Prop where
  accepted : ∀ j, ∀ x ∈ (s.worker.shardQueues j).accepted, P j x
  pushing : ∀ j u, ∀ x ∈ ((s.worker.shardQueues j).producers u).item, P j x
  sending : ∀ e ∈ s.pub.hand, P e.1 e.2

namespace Carries

variable {P : ∀ j : QueueId n, j.kind.Event → Prop}

theorem init : Carries P (init n) where
  accepted _ _ h := by cases h
  pushing _ _ _ h := by cases h
  sending _ h := by cases h

/-- A step on queue `j` by thread `u`. -/
theorem accepted_setQueue {j : QueueId n} {q : RingQueue.State (Thread n) j.kind.Event}
    (h : Carries P s) (hacc : ∀ x ∈ q.accepted, P j x) :
    ∀ i, ∀ x ∈ ((s.worker.setQueue j q).shardQueues i).accepted, P i x :=
  (Function.forall_update_iff s.worker.shardQueues
    (p := fun j q => ∀ x ∈ q.accepted, P j x)).mpr ⟨hacc, fun i _ => h.accepted i⟩

theorem pushing_setQueue {j : QueueId n} {q : RingQueue.State (Thread n) j.kind.Event}
    (h : Carries P s) (hpush : ∀ u, ∀ x ∈ (q.producers u).item, P j x) :
    ∀ i u, ∀ x ∈ (((s.worker.setQueue j q).shardQueues i).producers u).item, P i x :=
  (Function.forall_update_iff s.worker.shardQueues
    (p := fun j q => ∀ u, ∀ x ∈ (q.producers u).item, P j x)).mpr ⟨hpush, fun i _ => h.pushing i⟩

theorem setQueue {j : QueueId n} {q : RingQueue.State (Thread n) j.kind.Event} {u : Thread n}
    {p : Publishing n} {published : Nat} (h : Carries P s) (hacc : ∀ x ∈ q.accepted, P j x)
    (hpush : ∀ u, ∀ x ∈ (q.producers u).item, P j x) :
    Carries P { s with
      worker := (s.worker.setQueue j q).setPublishing u p
      published := published } where
  accepted := h.accepted_setQueue hacc
  pushing := h.pushing_setQueue hpush
  sending := h.sending

/-- Thread `u` is before another operation of its push. -/
theorem setProducer {j : QueueId n} {q : RingQueue.State (Thread n) j.kind.Event} {u : Thread n}
    {p : RingQueue.Producer j.kind.Event} (h : Carries P s)
    (hprod : q.producers = Function.update (s.worker.shardQueues j).producers u p)
    (hp : ∀ x ∈ p.item, P j x) (v : Thread n) : ∀ x ∈ (q.producers v).item, P j x := by
  rw [hprod, Function.update_apply]
  split
  · exact hp
  · exact h.pushing j v

/-- An event that is popped was accepted. -/
theorem popResult {j : QueueId n} {x : j.kind.Event} (h : Carries P s) (hinv : Inv s)
    (hx : RingQueue.popResult (s.worker.shardQueues j) = some x) : P j x := by
  obtain ⟨r, hr⟩ := RingQueue.consumer_of_popResult hx
  have hok := (hinv.worker.queue j).consumer
  rw [hr] at hok
  exact h.accepted j x (List.mem_of_getElem? hok.2)

theorem pop {c : Cycle} {j : QueueId n} (h : Carries P s) (hinv : Inv s) :
    Carries P (pop s c j) := by
  obtain ⟨hacc, hprod⟩ := RingQueue.consume_accepted (q := ring EventKind.Event j.kind)
    (s.worker.shardQueues j)
  refine ⟨h.accepted_setQueue (hacc ▸ h.accepted j), h.pushing_setQueue (hprod ▸ h.pushing j),
    fun e he => ?_⟩
  rw [pop_hand] at he
  obtain ⟨x, hx, rfl⟩ := List.mem_map.mp he
  exact h.popResult hinv (Option.mem_toList.mp hx)

theorem step {a : Action n} (h : Carries P s) (hinv : Inv s)
    (hP : ∀ u k item nowNs out, a = .onEvent u k item nowNs →
      DataDispatcher.onEvent registry k item nowNs = some out → ∀ hlt, P ⟨⟨u.shardIdx, hlt⟩, k⟩ out)
    (hs : step registry s a = some t) : Carries P t := by
  cases stepEffect hs with
  | ignored => exact h
  | outOfRange => exact ⟨h.accepted, h.pushing, h.sending⟩
  | @publish u k item out nowNs q hlt hout _ hq =>
    obtain ⟨-, rfl⟩ := RingQueue.tryPush_eq_some hq
    refine h.setQueue (h.accepted _) (h.setProducer rfl fun x hx => ?_)
    cases hx
    exact hP u k item nowNs _ rfl hout hlt
  | @produce u j q _ hq =>
    obtain ⟨x, p, hx, hprod, hcases⟩ := RingQueue.produce_cases hq
    have hPx := h.pushing j u x hx
    have hitem : ∀ y ∈ p.item, P j y := by
      rcases hcases with ⟨-, rfl, -⟩ | ⟨-, rfl, -⟩ | ⟨-, hp, -⟩
      · exact fun y hy => by cases hy
      · exact fun y hy => by cases hy
      · exact fun y hy => by cases hp.symm.trans hy; exact hPx
    refine h.setQueue ?_ (h.setProducer hprod hitem)
    rcases hcases with ⟨-, -, hacc⟩ | ⟨-, -, hacc⟩ | ⟨-, -, hacc⟩
    · rw [hacc]
      exact List.forall_mem_append.mpr ⟨h.accepted j, List.forall_mem_singleton.mpr hPx⟩
    · exact hacc ▸ h.accepted j
    · exact hacc ▸ h.accepted j
  | countDrop => exact ⟨h.accepted, h.pushing, h.sending⟩
  | turn p _ hp _ => exact ⟨h.accepted, h.pushing, fun e he => by rw [hp] at he; cases he⟩
  | pop hpub => exact h.pop hinv
  | @send answer c event hpub =>
    refine ⟨?_, ?_, fun e he => by cases he⟩
    · rw [send_worker]
      exact h.accepted
    · rw [send_worker]
      exact h.pushing

end Carries

end Publication

end Sqc
