import SmartQuantCollector.Pubsub.DispatchCycle

/-! # The order of published events

Without the forwarder every queue of `PubWorker` belongs to one parser worker, which is outside
`Publish*` whenever it handles a message (`Private`). What it has offered to its queues so far
(`offered`) only grows at the end, the queues may leave some of it out, and the pub thread sends
what it takes from a queue in the order in which it takes it (`InOrder`). -/

namespace Sqc
open Concurrency

namespace Publication
open PubWorker

variable {n : Nat} {registry : ChannelRegistry} {s t : State n} {a : Action n}

/-! ## Whose push is in progress -/

/-- A thread pushes into the queue that it publishes to, which is one of its shard. -/
structure Private (s : State n) : Prop where
  publishing : ∀ j u, (s.worker.shardQueues j).producers u ≠ .idle →
    s.worker.publishing u = .tryPush j
  shard : ∀ j u, s.worker.publishing u = .tryPush j → j.shard.val = u.shardIdx

namespace Private

theorem init : Private (init n) where
  publishing _ _ h := absurd rfl h
  shard _ _ h := by cases h

/-- Thread `u` is before another operation of its publish. -/
theorem setQueue {j : QueueId n} {q : RingQueue.State (Thread n) j.kind.Event} {u : Thread n}
    {p : RingQueue.Producer j.kind.Event} {p' : Publishing n} {published : Nat} (h : Private s)
    (hprod : q.producers = Function.update (s.worker.shardQueues j).producers u p)
    (hu : ∀ i, s.worker.publishing u = .tryPush i → i = j)
    (hp : p ≠ .idle → p' = .tryPush j) (hshard : ∀ i, p' = .tryPush i → i.shard.val = u.shardIdx) :
    Private { s with
      worker := (s.worker.setQueue j q).setPublishing u p'
      published := published } where
  publishing i v hv := by
    change (Function.update s.worker.shardQueues j q i).producers v ≠ .idle at hv
    show Function.update s.worker.publishing u p' v = .tryPush i
    rcases eq_or_ne v u with rfl | hne
    · rw [Function.update_self]
      rcases eq_or_ne i j with rfl | hij
      · rw [Function.update_self, hprod, Function.update_self] at hv
        exact hp hv
      · rw [Function.update_of_ne hij] at hv
        exact absurd (hu i (h.publishing i v hv)) hij
    · rw [Function.update_of_ne hne]
      refine h.publishing i v ?_
      rcases eq_or_ne i j with rfl | hij
      · rwa [Function.update_self, hprod, Function.update_of_ne hne] at hv
      · rwa [Function.update_of_ne hij] at hv
  shard i v hv := by
    change Function.update s.worker.publishing u p' v = .tryPush i at hv
    rcases eq_or_ne v u with rfl | hne
    · rw [Function.update_self] at hv
      exact hshard i hv
    · rw [Function.update_of_ne hne] at hv
      exact h.shard i v hv

theorem step (h : Private s) (hs : step registry s a = some t) : Private t := by
  cases stepEffect hs with
  | ignored => exact h
  | outOfRange => exact ⟨h.publishing, h.shard⟩
  | publish _ _ hu hq =>
    obtain ⟨-, rfl⟩ := RingQueue.tryPush_eq_some hq
    refine h.setQueue rfl (fun i hi => ?_) (fun _ => rfl) fun i hi => ?_
    · rw [hu] at hi
      cases hi
    · cases hi
      rfl
  | @produce u j q hu hq =>
    obtain ⟨x, p, -, hprod, hcases⟩ := RingQueue.produce_cases hq
    refine h.setQueue hprod (fun i hi => ?_) (fun hp => ?_) fun i hi => ?_
    · cases hu.symm.trans hi
      rfl
    · rcases hcases with ⟨-, rfl, -⟩ | ⟨-, rfl, -⟩ | ⟨hres, -, -⟩
      · exact absurd rfl hp
      · exact absurd rfl hp
      · rw [hres]
    · split at hi
      · cases hi
        exact h.shard j u hu
      · cases hi
      · cases hi
  | @countDrop u hu =>
    refine ⟨fun j v hv => ?_, fun j v hv => ?_⟩
    · have hpub := h.publishing j v hv
      refine (Function.update_of_ne ?_ _ _).trans hpub
      rintro rfl
      cases hu.symm.trans hpub
    · change Function.update s.worker.publishing u .outside v = .tryPush j at hv
      rw [Function.update_apply] at hv
      split at hv
      · cases hv
      · exact h.shard j v hv
  | turn => exact ⟨h.publishing, h.shard⟩
  | @pop _ c j hpub =>
    refine ⟨fun i v hv => h.publishing i v ?_, h.shard⟩
    change (Function.update s.worker.shardQueues j _ i).producers v ≠ .idle at hv
    rcases eq_or_ne i j with rfl | hij
    · rwa [Function.update_self, (RingQueue.consume_accepted _).2] at hv
    · rwa [Function.update_of_ne hij] at hv
  | @send answer c event hpub =>
    constructor
    · rw [send_worker]
      exact h.publishing
    · rw [send_worker]
      exact h.shard

/-- A parser worker that is outside `Publish*` finds the queues of its shard free. -/
theorem exclusive {i : Fin n} {k : EventKind} (h : Private s)
    (hforwarder : s.worker.publishing .forwarder = .outside)
    (hi : s.worker.publishing (.parser i) = .outside) :
    RingQueue.Exclusive (s.worker.shardQueues ⟨i, k⟩) := by
  intro u
  by_contra hne
  have hpub := h.publishing _ u hne
  have hshard := h.shard _ u hpub
  cases u with
  | forwarder => cases hforwarder.symm.trans hpub
  | parser i' =>
    obtain rfl : i = i' := Fin.ext hshard
    cases hi.symm.trans hpub

end Private

/-- The action is one of a parser worker or of the pub thread. -/
def Action.NoForwarder : Action n → Prop
  | .onEvent .forwarder .. | .advance .forwarder => False
  | _ => True

theorem publishing_of_onEvent {u : Thread n} {k : EventKind} {item : k.Event} {nowNs : UInt64}
    (hs : step registry s (.onEvent u k item nowNs) = some t) :
    s.worker.publishing u = .outside := by
  simp only [step, onEvent] at hs
  split at hs
  · split at hs
    next hu => exact hu
    next => cases hs
  · obtain ⟨w, hw, -⟩ := Option.map_eq_some_iff.mp hs
    unfold PubWorker.publish at hw
    split at hw
    next hu => exact hu
    next => cases hw

theorem Private.soleProducer (h : Private s)
    (hforwarder : s.worker.publishing .forwarder = .outside) (ha : a.NoForwarder)
    (hs : Publication.step registry s a = some t) : SoleProducer registry s a := by
  cases a with
  | onEvent u k item nowNs =>
    cases u with
    | forwarder => exact ha.elim
    | parser i => exact fun _ _ => h.exclusive hforwarder (publishing_of_onEvent hs)
  | advance | dispatchCycle | dispatch => trivial

/-- The forwarder stays outside `Publish*`. -/
theorem step_forwarder (h : s.worker.publishing .forwarder = .outside) (ha : a.NoForwarder)
    (hs : step registry s a = some t) : t.worker.publishing .forwarder = .outside := by
  cases stepEffect hs with
  | ignored | outOfRange | turn | pop => exact h
  | @publish u | @produce u | @countDrop u =>
    refine (Function.update_of_ne ?_ _ _).trans h
    rintro rfl
    exact ha
  | send =>
    rw [send_worker]
    exact h

/-! ## What is offered to a queue -/

/-- The events that the worker of the shard has published to the queue, without those that were
dropped. The last one may still be in the push. -/
def offered (w : PubWorker.State n EventKind.Event) (j : QueueId n) : List (Queued n) :=
  ((w.shardQueues j).accepted ++ ((w.shardQueues j).producers (.parser j.shard)).item.toList).map
    (Sigma.mk j)

theorem offered_setQueue (w : PubWorker.State n EventKind.Event) {j : QueueId n}
    (q : RingQueue.State (Thread n) j.kind.Event) :
    offered (w.setQueue j q) j =
      (q.accepted ++ (q.producers (.parser j.shard)).item.toList).map (Sigma.mk j) := by
  simp only [offered, State.setQueue, Function.update_self]

theorem offered_setQueue_of_ne (w : PubWorker.State n EventKind.Event) {i j : QueueId n}
    (q : RingQueue.State (Thread n) j.kind.Event) (hi : i ≠ j) :
    offered (w.setQueue j q) i = offered w i := by
  simp only [offered, State.setQueue, Function.update_of_ne hi]

/-- Publishing adds the event at the end of one queue; no other step adds anything. -/
theorem offered_step (h : Private s) (hs : step registry s a = some t) (ha : a.NoForwarder)
    (j : QueueId n) :
    (offered t.worker j).Sublist (offered s.worker j) ∨
    ∃ i k item nowNs out, a = .onEvent (.parser i) k item nowNs ∧
      DataDispatcher.onEvent registry k item nowNs = some out ∧ j = ⟨i, k⟩ ∧
      offered t.worker j = offered s.worker j ++ [⟨⟨i, k⟩, out⟩] := by
  cases stepEffect hs with
  | ignored | outOfRange | countDrop | turn => exact .inl (List.Sublist.refl _)
  | @publish u k item out nowNs q hlt hout hu hq =>
    cases u with
    | forwarder => exact ha.elim
    | parser i =>
      obtain ⟨hidle, rfl⟩ := RingQueue.tryPush_eq_some hq
      change (offered (s.worker.setQueue ⟨i, k⟩ _) j).Sublist _ ∨
        ∃ i' k' item' nowNs' out', _ ∧ _ ∧ _ ∧ offered (s.worker.setQueue ⟨i, k⟩ _) j = _
      by_cases hj : j = ⟨i, k⟩
      · right
        refine ⟨i, k, item, nowNs, out, rfl, hout, hj, ?_⟩
        subst hj
        change (s.worker.shardQueues ⟨i, k⟩).producers (.parser i) = .idle at hidle
        rw [offered_setQueue, offered, hidle]
        simp only [RingQueue.State.setProducer, Function.update_self, RingQueue.Producer.item,
          Option.toList_some, Option.toList_none, List.append_nil, List.map_append, List.map_cons,
          List.map_nil]
        rfl
      · rw [offered_setQueue_of_ne _ _ hj]
        exact .inl (List.Sublist.refl _)
  | @produce u i q hu hq =>
    left
    change (offered (s.worker.setQueue i q) j).Sublist _
    by_cases hj : j = i
    · subst hj
      obtain rfl : u = .parser j.shard := by
        cases u with
        | forwarder => exact ha.elim
        | parser i => exact congrArg _ (Fin.ext (h.shard j _ hu)).symm
      obtain ⟨x, p, hx, hprod, hcases⟩ := RingQueue.produce_cases hq
      rw [offered_setQueue, offered, hprod, Function.update_self, hx]
      refine List.Sublist.map _ ?_
      rcases hcases with ⟨-, rfl, hacc⟩ | ⟨-, rfl, hacc⟩ | ⟨-, hp, hacc⟩
      · rw [hacc]
        show (_ ++ [x] ++ []).Sublist _
        rw [List.append_nil]
        exact List.Sublist.refl _
      · rw [hacc]
        exact List.Sublist.append_left (List.nil_sublist _) _
      · rw [hacc, hp]
    · rw [offered_setQueue_of_ne _ _ hj]
  | @pop _ c i hpub =>
    left
    change (offered (s.worker.setQueue i _) j).Sublist _
    by_cases hj : j = i
    · subst hj
      rw [offered_setQueue, (RingQueue.consume_accepted _).1, (RingQueue.consume_accepted _).2]
      exact List.Sublist.refl _
    · rw [offered_setQueue_of_ne _ _ hj]
  | send =>
    rw [send_worker]
    exact .inl (List.Sublist.refl _)

/-! ## What is taken from a queue -/

/-- The events that were sent, then the one that was popped and is to be sent next. -/
def State.taken (s : State n) : List (Queued n) := s.sent ++ s.pub.hand

/-- What was sent from a queue was popped from it, in this order. -/
def InOrder (s : State n) : Prop :=
  ∀ j, (s.taken.filter (·.1 = j)).Sublist ((s.worker.shardQueues j).popped.map (Sigma.mk j))

theorem popped_setQueue (w : PubWorker.State n EventKind.Event) {j : QueueId n}
    {q : RingQueue.State (Thread n) j.kind.Event} (hq : q.popped = (w.shardQueues j).popped) :
    ∀ i, ((w.setQueue j q).shardQueues i).popped = (w.shardQueues i).popped :=
  (Function.forall_update_iff w.shardQueues
    (p := fun i q => q.popped = (w.shardQueues i).popped)).mpr ⟨hq, fun _ _ => rfl⟩

namespace InOrder

theorem init : InOrder (init n) := fun _ => List.Sublist.refl _

/-- A step that takes nothing from a queue. -/
theorem of_popped_eq (h : InOrder s) (htaken : t.taken.Sublist s.taken)
    (hpopped : ∀ j, (t.worker.shardQueues j).popped = (s.worker.shardQueues j).popped) :
    InOrder t := by
  intro j
  rw [hpopped]
  exact (htaken.filter _).trans (h j)

theorem pop {c : Cycle} {i : QueueId n} (h : InOrder s) (hpub : s.pub = .popping c i) :
    InOrder (pop s c i) := by
  intro j
  have hhand : s.taken = s.sent := by
    rw [State.taken, hpub]
    exact List.append_nil _
  have hj := h j
  rw [hhand] at hj
  rw [State.taken, pop_hand, List.filter_append]
  show (_ ++ _ : List (Queued n)).Sublist
    ((Function.update s.worker.shardQueues i _ j).popped.map (Sigma.mk j))
  by_cases hij : j = i
  · subst hij
    rw [Function.update_self, RingQueue.consume_popped, List.map_append]
    exact hj.append List.filter_sublist
  · have hnone : ((RingQueue.popResult (s.worker.shardQueues i)).toList.map
        (Sigma.mk i : _ → Queued n)).filter (·.1 = j) = [] := by
      refine List.filter_eq_nil_iff.mpr fun e he hej => ?_
      obtain ⟨x, -, rfl⟩ := List.mem_map.mp he
      exact hij (of_decide_eq_true hej).symm
    rw [hnone, List.append_nil, Function.update_of_ne hij]
    exact hj

theorem step (h : InOrder s) (hs : step registry s a = some t) : InOrder t := by
  cases stepEffect hs with
  | ignored | outOfRange | countDrop => exact h.of_popped_eq (List.Sublist.refl _) fun _ => rfl
  | turn p hbefore hafter _ =>
    refine h.of_popped_eq ?_ fun _ => rfl
    rw [State.taken, State.taken, hbefore, hafter]
  | publish _ _ _ hq =>
    obtain ⟨-, rfl⟩ := RingQueue.tryPush_eq_some hq
    exact h.of_popped_eq (List.Sublist.refl _) (popped_setQueue _ rfl)
  | produce _ hq =>
    exact h.of_popped_eq (List.Sublist.refl _) (popped_setQueue _ (RingQueue.produce_consumer hq).2)
  | pop hpub => exact h.pop hpub
  | @send answer c event hpub =>
    refine h.of_popped_eq ?_ fun j => by rw [send_worker]
    have hhand : s.pub.hand = [event] := by rw [hpub]; rfl
    rw [State.taken, State.taken, hhand]
    show ((s.record event _).sent ++ []).Sublist _
    rw [List.append_nil]
    cases sendTyped registry event.1.kind event.2.channelId answer with
    | noTopic | noBuffer | refused => exact List.sublist_append_left _ _
    | sent => exact List.Sublist.refl _

end InOrder

/-! ## Runs without the forwarder -/

structure Ordered (s : State n) : Prop where
  inv : Inv s
  priv : Private s
  forwarder : s.worker.publishing .forwarder = .outside
  inOrder : InOrder s

namespace Ordered

theorem init : Ordered (init n) := ⟨.init, .init, rfl, .init⟩

theorem step (h : Ordered s) (hs : step registry s a = some t) (ha : a.NoForwarder) :
    Ordered t where
  inv := h.inv.step (h.priv.soleProducer h.forwarder ha hs) hs
  priv := h.priv.step hs
  forwarder := step_forwarder h.forwarder ha hs
  inOrder := h.inOrder.step hs

/-- What was sent from a queue was offered to it, in this order. -/
theorem sent_sublist (h : Ordered s) (j : QueueId n) :
    (s.sent.filter (·.1 = j)).Sublist (offered s.worker j) := by
  have htaken : (s.sent.filter (·.1 = j)).Sublist (s.taken.filter (·.1 = j)) :=
    (List.sublist_append_left _ _).filter _
  have hpopped := (h.inv.worker.queue j).fifo.sublist
  refine (htaken.trans (h.inOrder j)).trans (List.Sublist.map _ ?_)
  exact hpopped.trans (List.sublist_append_left _ _)

end Ordered

end Publication

end Sqc
