import SmartQuantCollector.Exchange.Pipelines
import SmartQuantCollector.Lib.Ledger
import SmartQuantCollector.Pubsub.DispatchCycle

/-! # What becomes of published events

Of the return points between `Publish*` and the socket, those of a full queue, an exhausted buffer
pool and a refused send count the event in one of the drop counters. `SendTyped` also returns when
it has no topic, and counts nothing there. A registered channel always has a topic prefix, so what
is left is the length of the topic, and the names in it come from the configuration.

`accounted_iff` says in which runs every published event is accounted for. -/

namespace Sqc
open Concurrency

namespace PubWorker

variable {n : Nat} {T : EventKind → Type*}

instance : Fintype (QueueId n) :=
  .ofEquiv (Fin n × EventKind) ⟨fun p => ⟨p.1, p.2⟩, fun j => ⟨j.shard, j.kind⟩, fun _ => rfl,
    fun _ => rfl⟩

instance : Fintype (Thread n) :=
  .ofEquiv (Option (Fin n)) ⟨fun i => i.elim .forwarder .parser,
    fun | .forwarder => none | .parser i => some i, fun i => by cases i <;> rfl,
    fun t => by cases t <;> rfl⟩

/-- The number of events that the thread is publishing. -/
def Publishing.busy : Publishing n → Nat
  | .outside => 0
  | _ => 1

namespace State

/-- The number of events in the queues. -/
def inQueues (s : State n T) : Nat := ∑ j, (s.shardQueues j).size

/-- The number of events in calls of `Publish*` that have not returned. -/
def inCalls (s : State n T) : Nat := ∑ t, (s.publishing t).busy

variable (s : State n T)

theorem inQueues_setQueue {j : QueueId n} (q : RingQueue.State (Thread n) (T j.kind)) :
    (s.setQueue j q).inQueues + (s.shardQueues j).size = s.inQueues + q.size :=
  sum_update_dep_add (fun _ => RingQueue.State.size) s.shardQueues j q

theorem inCalls_setPublishing (t : Thread n) (p : Publishing n) :
    (s.setPublishing t p).inCalls + (s.publishing t).busy = s.inCalls + p.busy :=
  sum_update_add Publishing.busy s.publishing t p

end State

/-- The length of the topic is within the buffer. -/
def TopicFits (info : ChannelInfo) (k : EventKind) : Prop :=
  0 ≤ topicLen info.topicPrefix (eventSuffix k) ∧
    topicLen info.topicPrefix (eventSuffix k) < kMaxTopicLen

theorem sendTyped_eq_noTopic_iff {registry : ChannelRegistry} {k : EventKind} {channelId : UInt32}
    {answer : SendAnswer} {info : ChannelInfo} (hinfo : registry channelId = some info)
    (hne : info.topicPrefix ≠ "") :
    sendTyped registry k channelId answer = .noTopic ↔ ¬ TopicFits info k := by
  simp only [sendTyped, hinfo, if_neg hne, TopicFits]
  split
  next h => exact iff_of_true rfl (by omega)
  next h =>
    refine iff_of_false ?_ (by omega)
    split
    · exact nofun
    · split
      · exact nofun
      · split <;> exact nofun

end PubWorker

namespace Publication
open PubWorker

variable {n : Nat} {registry : ChannelRegistry} {s t : State n}

/-! ## Accounts -/

/-- The events that were sent, are in a queue, in a call that has not returned, or were dropped and
counted. -/
def State.total (s : State n) : Nat :=
  s.sent.length + s.worker.inQueues + s.worker.inCalls + s.pub.hand.length + s.drops

/-- Each event that was published is accounted for once, and `dropped_count()` is the number of
those that were dropped. -/
structure Accounted (s : State n) : Prop where
  published : s.published = s.total
  dropped : s.droppedCount = .ofNat s.drops

/-- The event that the pub thread is about to send has a topic that fits. -/
def FittingTopic (registry : ChannelRegistry) (s : State n) : Action n → Prop
  | .dispatch _ => ∀ e ∈ s.pub.hand, ∀ info, registry e.2.channelId = some info →
      TopicFits info e.1.kind
  | _ => True

/-- The channel of the event is registered. -/
def Registered (registry : ChannelRegistry) (j : QueueId n) (x : j.kind.Event) : Prop :=
  (registry x.channelId).isSome = true

/-- What a run keeps, whatever the topics. -/
structure Books (registry : ChannelRegistry) (s : State n) : Prop where
  inv : Inv s
  registered : Carries (Registered registry) s
  dropped : s.droppedCount = .ofNat s.drops
  total_le : s.total ≤ s.published

/-! ## Steps -/

/-- A thread goes on with its call on a queue. -/
theorem total_setQueue {u : Thread n} {p p' : Publishing n} {j : QueueId n}
    {q : RingQueue.State (Thread n) j.kind.Event} {published d : Nat}
    (hu : s.worker.publishing u = p)
    (hd : q.size + p'.busy = (s.worker.shardQueues j).size + p.busy + d) :
    State.total { s with
      worker := (s.worker.setQueue j q).setPublishing u p'
      published := published } = s.total + d := by
  have hqueues := s.worker.inQueues_setQueue q
  have hcalls : ((s.worker.setQueue j q).setPublishing u p').inCalls +
      (s.worker.publishing u).busy = s.worker.inCalls + p'.busy :=
    (s.worker.setQueue j q).inCalls_setPublishing u p'
  rw [hu] at hcalls
  show s.sent.length + (s.worker.setQueue j q).inQueues +
    ((s.worker.setQueue j q).setPublishing u p').inCalls + s.pub.hand.length + s.drops = _
  rw [State.total]
  omega

/-- The number of events in a queue after an operation of a push. -/
theorem produce_size {j : QueueId n} {u : Thread n} {q : RingQueue.State (Thread n) j.kind.Event}
    (h : Inv s)
    (hq : RingQueue.produce (ring EventKind.Event j.kind) (s.worker.shardQueues j) u = some q) :
    q.size = (s.worker.shardQueues j).size +
      if RingQueue.pushResult (ring EventKind.Event j.kind) (s.worker.shardQueues j) u = some true
      then 1 else 0 := by
  have hsize := (h.worker.queue j).size_add
  have hsize' := ((h.worker.queue j).produce (ring_lawful _) hq).size_add
  rw [(RingQueue.produce_consumer hq).2] at hsize'
  obtain ⟨x, p, -, -, hcases⟩ := RingQueue.produce_cases hq
  rcases hcases with ⟨hres, -, hacc⟩ | ⟨hres, -, hacc⟩ | ⟨hres, -, hacc⟩
  · rw [hacc, List.length_append, List.length_singleton] at hsize'
    rw [if_pos hres]
    omega
  · rw [hacc] at hsize'
    rw [hres, if_neg nofun]
    omega
  · rw [hacc] at hsize'
    rw [hres, if_neg nofun]
    omega

/-- An event that leaves a queue is in the hand of the pub thread. -/
theorem pop_total {c : Cycle} {j : QueueId n} (h : Inv s) (hpub : s.pub = .popping c j) :
    (pop s c j).total = s.total := by
  have hsize := (h.worker.queue j).size_add
  have hsize' := ((h.worker.queue j).consume (ring_lawful _) trivial).size_add
  rw [RingQueue.consume_popped, (RingQueue.consume_accepted _).1, List.length_append] at hsize'
  have hqueues : (pop s c j).worker.inQueues + _ = _ := s.worker.inQueues_setQueue _
  have hhand : s.pub.hand = [] := by rw [hpub]; rfl
  have hcalls : (pop s c j).worker.inCalls = s.worker.inCalls := rfl
  simp only [State.total, pop_hand, hhand, List.length_map, List.length_nil, hcalls]
  have hsent : (pop s c j).sent = s.sent := rfl
  have hdrops : (pop s c j).drops = s.drops := rfl
  rw [hsent, hdrops]
  omega

/-- `SendTyped` sends the event or counts it, unless there is no topic for it. -/
theorem send_total {c : Cycle} {event : Queued n} {answer : SendAnswer}
    (hpub : s.pub = .sending c event) :
    (send registry s c event answer).total +
      (if sendTyped registry event.1.kind event.2.channelId answer = .noTopic then 1 else 0) =
      s.total := by
  have hhand : s.pub.hand = [event] := by rw [hpub]; rfl
  have htotal : (send registry s c event answer).total = (s.record event
      (sendTyped registry event.1.kind event.2.channelId answer)).sent.length +
      s.worker.inQueues + s.worker.inCalls + 0 + (s.record event
      (sendTyped registry event.1.kind event.2.channelId answer)).drops := by
    simp only [State.total, send, State.record_worker, PubThread.hand, List.length_nil]
  rw [htotal, State.total, hhand, List.length_singleton]
  cases sendTyped registry event.1.kind event.2.channelId answer with
  | noTopic | noBuffer | refused =>
    simp only [State.record, reduceCtorEq, if_true, if_false]
    omega
  | sent =>
    simp only [State.record, reduceCtorEq, if_false, List.length_append, List.length_singleton]
    omega

theorem send_published {c : Cycle} {event : Queued n} {answer : SendAnswer} :
    (send registry s c event answer).published = s.published := by
  show (s.record event _).published = _
  cases sendTyped registry event.1.kind event.2.channelId answer <;> rfl

/-- What a send asks of the event in the pub thread's hand. -/
theorem fittingTopic_iff {c : Cycle} {event : Queued n} {answer : SendAnswer} {info : ChannelInfo}
    (hpub : s.pub = .sending c event) (hinfo : registry event.2.channelId = some info) :
    FittingTopic registry s (.dispatch answer) ↔ TopicFits info event.1.kind := by
  have hhand : s.pub.hand = [event] := by rw [hpub]; rfl
  constructor
  · intro h
    exact h event (by rw [hhand]; exact List.mem_singleton_self event) info hinfo
  · intro h e he info' hinfo'
    rw [hhand] at he
    cases List.mem_singleton.mp he
    cases hinfo.symm.trans hinfo'
    exact h

/-- A drop is counted when the thread leaves `Publish*`. -/
theorem countDrop_total {u : Thread n} (hu : s.worker.publishing u = .countDrop) :
    ({ s with
      worker := { s.worker with
        droppedQueueCount := s.worker.droppedQueueCount + 1 }.setPublishing u .outside
      drops := s.drops + 1 } : State n).total = s.total := by
  have hcalls := s.worker.inCalls_setPublishing u .outside
  rw [hu] at hcalls
  change (s.worker.setPublishing u .outside).inCalls + 1 = s.worker.inCalls + 0 at hcalls
  show s.sent.length + s.worker.inQueues + (s.worker.setPublishing u .outside).inCalls +
    s.pub.hand.length + (s.drops + 1) = s.sent.length + s.worker.inQueues + s.worker.inCalls +
    s.pub.hand.length + s.drops
  omega

/-- The counters keep up with the drops. -/
theorem step_dropped {a : Action n} (h : s.droppedCount = .ofNat s.drops)
    (hs : step registry s a = some t) : t.droppedCount = .ofNat t.drops := by
  cases stepEffect hs with
  | ignored | outOfRange | publish | produce | turn | pop => exact h
  | countDrop =>
    show s.worker.droppedQueueCount + 1 + s.droppedBufferCount + s.droppedHwmCount = _
    rw [← word_succ, ← h, State.droppedCount]
    grind
  | @send answer c event hpub =>
    show (s.record event _).droppedCount = .ofNat (s.record event _).drops
    cases sendTyped registry event.1.kind event.2.channelId answer with
    | noTopic | sent => exact h
    | noBuffer =>
      show s.worker.droppedQueueCount + (s.droppedBufferCount + 1) + s.droppedHwmCount = _
      rw [State.record, ← word_succ, ← h, State.droppedCount]
      grind
    | refused =>
      show s.worker.droppedQueueCount + s.droppedBufferCount + (s.droppedHwmCount + 1) = _
      rw [State.record, ← word_succ, ← h, State.droppedCount]
      grind

/-- A thread that publishes has a shard. -/
theorem shardIdx_lt (hn : 0 < n) (u : Thread n) : u.shardIdx < n := by
  cases u with
  | parser i => exact i.isLt
  | forwarder => exact hn

/-- A step moves events from one account to another; one is missing just in case it had no fitting
topic. -/
theorem step_total {a : Action n} (hn : 0 < n)
    (hreg : ∀ i info, registry i = some info → info.topicPrefix ≠ "") (hinv : Inv s)
    (hcar : Carries (Registered registry) s) (hs : step registry s a = some t) :
    ∃ l, (l = 0 ↔ FittingTopic registry s a) ∧
      t.published + s.total = s.published + t.total + l := by
  cases stepEffect hs with
  | ignored => exact ⟨0, iff_of_true rfl trivial, rfl⟩
  | @outOfRange u k item nowNs hge => exact absurd (shardIdx_lt hn u) hge
  | publish _ _ hu hq =>
    refine ⟨0, iff_of_true rfl trivial, ?_⟩
    obtain ⟨-, rfl⟩ := RingQueue.tryPush_eq_some hq
    rw [total_setQueue (d := 1) hu rfl]
    show s.published + 1 + s.total = s.published + (s.total + 1) + 0
    omega
  | produce hu hq =>
    refine ⟨0, iff_of_true rfl trivial, ?_⟩
    rw [total_setQueue (d := 0) hu]
    · rfl
    · -- the event is in the queue, is still pushed, or is to be counted
      rw [produce_size hinv hq]
      cases RingQueue.pushResult _ _ _ with
      | none => rfl
      | some pushed => cases pushed <;> rfl
  | @countDrop u hu =>
    refine ⟨0, iff_of_true rfl trivial, ?_⟩
    rw [countDrop_total hu]
    rfl
  | turn p hbefore hafter _ =>
    refine ⟨0, iff_of_true rfl ?_, ?_⟩
    · cases a with
      | dispatch => exact fun e he => by rw [hbefore] at he; cases he
      | onEvent | advance | dispatchCycle => trivial
    · simp only [State.total, hbefore, hafter]
      rfl
  | pop hpub =>
    refine ⟨0, iff_of_true rfl fun e he => ?_, ?_⟩
    · rw [hpub] at he
      cases he
    · rw [pop_total hinv hpub]
      rfl
  | @send answer c event hpub =>
    have htotal : (send registry s c event answer).total +
        (if sendTyped registry event.1.kind event.2.channelId answer = .noTopic then 1 else 0) =
        s.total := send_total hpub
    have hmem : event ∈ s.pub.hand := by rw [hpub]; exact List.mem_singleton_self event
    obtain ⟨info, hinfo⟩ := Option.isSome_iff_exists.mp (hcar.sending event hmem)
    have hiff : sendTyped registry event.1.kind event.2.channelId answer = .noTopic ↔
        ¬ TopicFits info event.1.kind := sendTyped_eq_noTopic_iff hinfo (hreg _ info hinfo)
    refine ⟨if sendTyped registry event.1.kind event.2.channelId answer = .noTopic then 1 else 0,
      ?_, ?_⟩
    · rw [fittingTopic_iff hpub hinfo, ← not_iff_not, ← hiff]
      split
      next h => exact iff_of_true nofun h
      next h => exact iff_of_false (fun h' => h' rfl) h
    · rw [send_published, ← htotal, Nat.add_assoc]

/-! ## Runs -/

namespace Books

theorem init : Books registry (init n) where
  inv := .init
  registered := .init
  dropped := rfl
  total_le := by
    show 0 + (PubWorker.init n EventKind.Event).inQueues +
      (PubWorker.init n EventKind.Event).inCalls + 0 + 0 ≤ 0
    have hqueues : (PubWorker.init n EventKind.Event).inQueues = 0 :=
      Finset.sum_eq_zero fun _ _ => RingQueue.size_init _
    have hcalls : (PubWorker.init n EventKind.Event).inCalls = 0 :=
      Finset.sum_eq_zero fun _ _ => rfl
    omega

theorem step {a : Action n} (hn : 0 < n)
    (hreg : ∀ i info, registry i = some info → info.topicPrefix ≠ "") (h : Books registry s)
    (hsole : SoleProducer registry s a) (hs : step registry s a = some t) : Books registry t where
  inv := h.inv.step hsole hs
  registered := h.registered.step h.inv
    (fun _ _ _ _ _ _ hout _ => (DataDispatcher.onEvent_eq_some hout).2) hs
  dropped := step_dropped h.dropped hs
  total_le := by
    obtain ⟨l, -, htotal⟩ := step_total hn hreg h.inv h.registered hs
    have := h.total_le
    omega

theorem accounted_iff_published (h : Books registry s) : Accounted s ↔ s.published = s.total :=
  ⟨Accounted.published, fun hp => ⟨hp, h.dropped⟩⟩

end Books

/-- The exact condition, for any registry in which every channel has a topic prefix. -/
theorem accounted_iff_of_registry (hn : 0 < n)
    (hreg : ∀ i info, registry i = some info → info.topicPrefix ≠ "") {as : List (Action n)}
    (hsole : (machine registry n).Along (SoleProducer registry) (init n) as)
    (hs : (machine registry n).exec (init n) as = some s) :
    Accounted s ↔ (machine registry n).Along (FittingTopic registry) (init n) as := by
  have hinit : Books registry (init n) := .init
  have hbooks : Books registry s := (machine registry n).exec_invariant
    (fun _ _ _ h hsole => h.step hn hreg hsole) hinit hsole hs
  have hrun := (machine registry n).exec_iff_along (I := Books registry)
    (C := FittingTopic registry) (Q := fun s => s.published = s.total)
    (fun _ _ _ h hsole => h.step hn hreg hsole) (fun s a t h _ hstep => by
      obtain ⟨l, hl, htotal⟩ := step_total hn hreg h.inv h.registered hstep
      have := h.total_le
      rw [← hl]
      omega) hinit hsole hs
  rw [hbooks.accounted_iff_published, hrun, and_iff_right]
  exact Nat.le_antisymm (Nat.zero_le _) hinit.total_le

/-- Whatever the configuration that start-up accepts: a run in which no two pushes on one queue
overlap accounts for every published event just in case every event that reaches `SendTyped` has a
topic that fits. -/
theorem accounted_iff (cfg : RootConfig) (hok : (Pipelines.launched cfg).1 = .ok ())
    (as : List (Action cfg.parserCores.length)) (s : State cfg.parserCores.length)
    (hsole : (machine (Pipelines.launched cfg).2.world.channels cfg.parserCores.length).Along
      (SoleProducer (Pipelines.launched cfg).2.world.channels) (init cfg.parserCores.length) as)
    (hs : (machine (Pipelines.launched cfg).2.world.channels cfg.parserCores.length).exec
      (init cfg.parserCores.length) as = some s) :
    Accounted s ↔ (machine (Pipelines.launched cfg).2.world.channels
      cfg.parserCores.length).Along (FittingTopic (Pipelines.launched cfg).2.world.channels)
      (init cfg.parserCores.length) as := by
  refine accounted_iff_of_registry ?_ (fun i info hinfo => ?_) hsole hs
  · refine List.length_pos_iff.mpr fun hcores => ?_
    rw [Pipelines.launched_of_isEmpty hcores] at hok
    cases hok
  · rw [((Pipelines.launched_consistent cfg).registry i info hinfo).2.2]
    exact info.topic_ne_empty

/-! ### One tick -/

/-- A configuration with one futures symbol. -/
def oneFuture (exchange : String) : RootConfig where
  parserCores := [3]
  exchanges :=
    [{ name := exchange, enabled := true, channels :=
        [{ type := "futures", symbols := [{ name := "ES" }] }] }]

/-- The forwarder publishes a tick, then the pub thread takes it out of its queue and sends it. -/
def oneTick (channelId : UInt32) : List (Action 1) :=
  [.onEvent .forwarder .tick { (default : TickData) with channelId } 0,
    .advance .forwarder, .advance .forwarder, .advance .forwarder, .dispatchCycle 0, .dispatch {},
    .dispatch {}, .dispatch {}, .dispatch {}, .dispatch {}, .dispatch {}]

theorem oneTick_soleProducer (registry : ChannelRegistry) (channelId : UInt32) :
    (machine registry 1).Along (SoleProducer registry) (init 1) (oneTick channelId) := by
  refine ⟨fun _ _ _ => rfl, fun _ _ => ?_⟩
  refine (machine registry 1).along_mono (C := fun _ a => ∀ s, SoleProducer registry s a)
    (fun s _ h => h s) ((machine registry 1).along_of_forall fun a ha => ?_)
  have hcases : a = .advance .forwarder ∨ a = .dispatchCycle 0 ∨ a = .dispatch {} := by
    simpa using ha
  rcases hcases with rfl | rfl | rfl
  · exact fun _ => trivial
  · exact fun _ => trivial
  · exact fun _ => trivial

/-- The run of `oneTick` in a start-up with one futures symbol of the exchange. -/
def runOneTick (exchange : String) : Option (State 1) :=
  (machine (Pipelines.launched (oneFuture exchange)).2.world.channels 1).exec (init 1)
    (oneTick (computeChannelId exchange "futures" "ES"))

/-- The terms of `total` and the counters. -/
def State.figures (s : State n) : List Nat :=
  [s.sent.length, s.worker.inQueues, s.worker.inCalls, s.pub.hand.length, s.drops,
    s.droppedCount.toNat]

theorem runOneTick_figures (exchange : String) (sent : Nat)
    (h : (runOneTick exchange).map (fun s => (s.published, s.figures)) =
      some (1, [sent, 0, 0, 0, 0, 0])) :
    ∃ s, runOneTick exchange = some s ∧ s.published = 1 ∧ s.sent.length = sent ∧
      s.worker.inQueues = 0 ∧ s.worker.inCalls = 0 ∧ s.pub.hand = [] ∧ s.drops = 0 ∧
      s.droppedCount = 0 ∧ s.total = sent := by
  obtain ⟨s, hs, hfig⟩ := Option.map_eq_some_iff.mp h
  simp only [State.figures, Prod.mk.injEq, List.cons.injEq, List.length_eq_zero_iff,
    and_true] at hfig
  obtain ⟨hpub, hsent, hqueues, hcalls, hhand, hdrops, hcount⟩ := hfig
  refine ⟨s, hs, hpub, hsent, hqueues, hcalls, hhand, hdrops, UInt64.toNat_inj.mp hcount, ?_⟩
  rw [State.total, hsent, hqueues, hcalls, hhand, hdrops]
  rfl

/-- A topic of 19 bytes: the tick is sent. -/
theorem short_topic_accounted :
    (Pipelines.launched (oneFuture "CME")).1 = .ok () ∧
    ∃ s, runOneTick "CME" = some s ∧ s.sent.length = 1 ∧ Accounted s ∧
      (machine (Pipelines.launched (oneFuture "CME")).2.world.channels 1).Along
        (FittingTopic (Pipelines.launched (oneFuture "CME")).2.world.channels) (init 1)
        (oneTick (computeChannelId "CME" "futures" "ES")) := by
  have hok : (Pipelines.launched (oneFuture "CME")).1 = .ok () := by decide +kernel
  obtain ⟨s, hs, hpub, hsent, -, -, -, hdrops, hcount, htotal⟩ :=
    runOneTick_figures "CME" 1 (by decide +kernel)
  have hacc : Accounted s := ⟨hpub.trans htotal.symm, by rw [hcount, hdrops]; rfl⟩
  exact ⟨hok, s, hs, hsent, hacc,
    (accounted_iff (oneFuture "CME") hok _ s (oneTick_soleProducer _ _) hs).mp hacc⟩

/-- A long name for an exchange. -/
def longName : String := "a_futures_exchange_whose_name_takes_up_fifty_bytes"

/-- The topic of the tick would have 66 bytes: the tick is gone and no counter has moved. -/
theorem long_topic_lost :
    (oneFuture longName).accepted = true ∧ (Pipelines.launched (oneFuture longName)).1 = .ok () ∧
    ∃ s, runOneTick longName = some s ∧ s.published = 1 ∧ s.sent = [] ∧ s.worker.inQueues = 0 ∧
      s.worker.inCalls = 0 ∧ s.pub.hand = [] ∧ s.droppedCount = 0 ∧ ¬ Accounted s := by
  obtain ⟨s, hs, hpub, hsent, hqueues, hcalls, hhand, -, hcount, htotal⟩ :=
    runOneTick_figures longName 0 (by decide +kernel)
  refine ⟨by decide +kernel, by decide +kernel, s, hs, hpub, List.length_eq_zero_iff.mp hsent,
    hqueues, hcalls, hhand, hcount, fun h => ?_⟩
  have := h.published
  rw [hpub, htotal] at this
  cases this

end Publication

end Sqc
