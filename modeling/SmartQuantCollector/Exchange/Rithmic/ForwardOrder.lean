import SmartQuantCollector.Exchange.Rithmic.RithmicQueueFifo
import SmartQuantCollector.Exchange.Rithmic.RithmicReceiver
import SmartQuantCollector.Lib.Subsequence
import SmartQuantCollector.Pubsub.PublicationOrder

/-! # Futures events leave in the order in which the gateway pushes them

The way of an event from a callback of the gateway to the socket: `TryPush` reserves a position of
its queue in shared memory, the receiver takes the positions one after the other, the handler offers
the event to the queue of shard 0, and the pub thread sends. Each stage keeps the order and may
leave events out; a push that is dropped leaves a sentinel, which the handler ignores.
`sent_in_push_order` puts the stages together for a collector that has futures channels only, where
the forwarder is the only thread that publishes. -/

namespace Sqc
open Concurrency

/-! ## The positions of a queue -/

namespace MpscRithmicQueue

variable {ι T : Type*} {c : Capacity} {s t : State ι T} {calls : List T}

/-- The positions go to the calls in their order: a push in progress holds that of its call, and
what is accepted at a position is the event of its call. -/
structure Called (calls : List T) (s : State ι T) : Prop where
  writePos : s.writePos = calls.length
  call : ∀ {i event pos}, (s.producers i).call = some (event, pos) → calls[pos]? = some event
  accepted : ∀ {p event}, s.outcomes p = some (.accepted event) → calls[p]? = some event

section
variable [DecidableEq ι] [Inhabited T]

/-- What an operation of a push does to the calls and the outcomes. -/
theorem produce_call {i : ι} (h : produce c s i = some t) :
    t.writePos = s.writePos ∧ ∃ p, t.producers = Function.update s.producers i p ∧
      (p.call = (s.producers i).call ∨ p.call = none) ∧
      (t.outcomes = s.outcomes ∨
        (∃ pos, t.outcomes = Function.update s.outcomes pos (some .dropped)) ∨
        ∃ event pos, (s.producers i).call = some (event, pos) ∧
          t.outcomes = Function.update s.outcomes pos (some (.accepted event))) := by
  cases hi : s.producers i with
  | idle =>
    simp only [produce, hi] at h
    cases h
  | fastLoad event pos =>
    simp only [produce, hi] at h
    split at h
    · cases h
      exact ⟨rfl, .write event pos, rfl, .inl rfl, .inl rfl⟩
    · cases h
      exact ⟨rfl, .spinLoad event pos 0, rfl, .inl rfl, .inl rfl⟩
  | spinLoad event pos spin =>
    simp only [produce, hi] at h
    split at h
    · cases h
      exact ⟨rfl, .write event pos, rfl, .inl rfl, .inl rfl⟩
    · split at h
      · cases h
        exact ⟨rfl, .dropWrite pos, rfl, .inr rfl, .inl rfl⟩
      · cases h
        exact ⟨rfl, .spinLoad event pos (spin + 1), rfl, .inl rfl, .inl rfl⟩
  | pushLoad event pos =>
    simp only [produce, hi] at h
    split at h
    · cases h
      exact ⟨rfl, .write event pos, rfl, .inl rfl, .inl rfl⟩
    · cases h
      refine ⟨rfl, s.producers i, (Function.update_eq_self i _).symm, .inl ?_, .inl rfl⟩
      rw [hi]
  | write event pos =>
    simp only [produce, hi] at h
    cases h
    exact ⟨rfl, .publish event pos, rfl, .inl rfl, .inl rfl⟩
  | publish event pos =>
    simp only [produce, hi] at h
    cases h
    exact ⟨rfl, .idle, rfl, .inr rfl, .inr (.inr ⟨event, pos, rfl, rfl⟩)⟩
  | dropWrite pos =>
    simp only [produce, hi] at h
    cases h
    exact ⟨rfl, .dropPublish pos, rfl, .inr rfl, .inl rfl⟩
  | dropPublish pos =>
    simp only [produce, hi] at h
    cases h
    exact ⟨rfl, .dropCount, rfl, .inr rfl, .inr (.inl ⟨pos, rfl⟩)⟩
  | dropCount =>
    simp only [produce, hi] at h
    cases h
    exact ⟨rfl, .idle, rfl, .inr rfl, .inl rfl⟩

namespace Called

omit [DecidableEq ι] in
theorem init : Called [] (init : State ι T) where
  writePos := rfl
  call h := by cases h
  accepted h := by cases h

omit [Inhabited T] in
theorem reserve (h : Called calls s) {i : ι} {event : T} {p : Nat → Producer T}
    (hp : ∀ pos, (p pos).call = some (event, pos)) :
    Called (calls ++ [event]) (s.reserve i p) := by
  have hold : ∀ {pos : Nat} {x : T}, calls[pos]? = some x → (calls ++ [event])[pos]? = some x := by
    intro pos x hx
    rw [List.getElem?_append_left (List.getElem?_eq_some_iff.mp hx).1]
    exact hx
  refine ⟨?_, fun {j e pos} hj => ?_, fun ho => hold (h.accepted ho)⟩
  · rw [List.length_append, ← h.writePos]
    rfl
  · change (Function.update s.producers i (p s.writePos) j).call = some (e, pos) at hj
    rcases eq_or_ne j i with rfl | hji
    · rw [Function.update_self, hp] at hj
      cases hj
      rw [h.writePos, List.getElem?_concat_length]
    · rw [Function.update_of_ne hji] at hj
      exact hold (h.call hj)

theorem produce (h : Called calls s) {i : ι} (hs : produce c s i = some t) : Called calls t := by
  obtain ⟨hw, p, hprod, hcall, hout⟩ := produce_call hs
  refine ⟨hw.trans h.writePos, fun {j e pos} hj => ?_, fun {q e} he => ?_⟩
  · rw [hprod] at hj
    rcases eq_or_ne j i with rfl | hji
    · rw [Function.update_self] at hj
      rcases hcall with hcall | hcall
      · exact h.call (hcall ▸ hj)
      · cases hcall.symm.trans hj
    · rw [Function.update_of_ne hji] at hj
      exact h.call hj
  · rcases hout with hout | ⟨pos, hout⟩ | ⟨event, pos, hi, hout⟩
    · exact h.accepted (hout ▸ he)
    · rw [hout] at he
      rcases eq_or_ne q pos with rfl | hq
      · rw [Function.update_self] at he
        cases he
      · rw [Function.update_of_ne hq] at he
        exact h.accepted he
    · rw [hout] at he
      rcases eq_or_ne q pos with rfl | hq
      · rw [Function.update_self] at he
        cases he
        exact h.call hi
      · rw [Function.update_of_ne hq] at he
        exact h.accepted he

omit [DecidableEq ι] [Inhabited T] in
theorem consume (h : Called calls s) : Called calls (consume c s) := by
  obtain ⟨hw, hp, ho⟩ := consume_effect c s
  exact ⟨hw.trans h.writePos, hp ▸ h.call, ho ▸ h.accepted⟩

omit [DecidableEq ι] [Inhabited T] in
theorem kill (h : Called calls s) : Called calls s.kill where
  writePos := h.writePos
  call h := by cases h
  accepted := h.accepted

/-- An operation of the gateway: a call of `Push` or `TryPush` is added at the end. -/
theorem step (h : Called calls s) {a : Action ι T} (hs : step c s a = some t) :
    Called (calls ++ (a.reservation.map Prod.snd).toList) t := by
  cases a with
  | tryPush i e =>
    simp only [MpscRithmicQueue.step] at hs
    split at hs
    · cases hs
      exact h.reserve fun _ => rfl
    · cases hs
  | push i e =>
    simp only [MpscRithmicQueue.step] at hs
    split at hs
    · cases hs
      exact h.reserve fun _ => rfl
    · cases hs
  | produce i =>
    rw [show calls ++ ((Action.produce i : Action ι T).reservation.map Prod.snd).toList = calls from
      List.append_nil _]
    exact h.produce hs
  | consume =>
    cases hs
    rw [show calls ++ ((Action.consume : Action ι T).reservation.map Prod.snd).toList = calls from
      List.append_nil _]
    exact h.consume

end Called

end

/-- What is popped are the events of the calls in their order, or sentinels in their place. -/
theorem Inv.popped_forall₂ [Inhabited T] (h : Inv c s) (hc : Called calls s) :
    List.Forall₂ (fun v event => v = event ∨ v = default) s.popped
      (calls.take s.popped.length) := by
  have hle : s.popped.length ≤ calls.length := by
    by_contra hlt
    have hp : calls.length < s.popped.length := by omega
    obtain ⟨o, ho, -⟩ := h.popped_value (List.getElem?_eq_getElem hp)
    have := (h.outcome_lt ho).1
    rw [hc.writePos] at this
    omega
  rw [List.forall₂_iff_get]
  refine ⟨by rw [List.length_take, Nat.min_eq_left hle], fun p hp hp' => ?_⟩
  obtain ⟨o, ho, hv⟩ := h.popped_value (List.getElem?_eq_getElem hp)
  cases o with
  | accepted event =>
    left
    have hevent := hc.accepted ho
    rw [List.getElem?_eq_getElem (by omega)] at hevent
    simp only [List.get_eq_getElem, List.getElem_take]
    rw [hv, Option.some.inj hevent]
    rfl
  | dropped => exact .inr hv

end MpscRithmicQueue

/-! ## The forwarder alone -/

namespace Publication
open PubWorker

variable {n : Nat} {registry : ChannelRegistry} {s t : State n} {a : Action n}

/-- The action is one of the forwarder or of the pub thread. -/
def Action.NoParser : Action n → Prop
  | .onEvent (.parser _) .. | .advance (.parser _) => False
  | _ => True

/-- The events that the forwarder has published to the queue, without those that were dropped. The
last one may still be in the push. -/
def forwarded (w : PubWorker.State n EventKind.Event) (j : QueueId n) : List (Queued n) :=
  ((w.shardQueues j).accepted ++ ((w.shardQueues j).producers .forwarder).item.toList).map
    (Sigma.mk j)

theorem forwarded_setQueue (w : PubWorker.State n EventKind.Event) {j : QueueId n}
    (q : RingQueue.State (Thread n) j.kind.Event) :
    forwarded (w.setQueue j q) j =
      (q.accepted ++ (q.producers .forwarder).item.toList).map (Sigma.mk j) := by
  simp only [forwarded, State.setQueue, Function.update_self]

theorem forwarded_setQueue_of_ne (w : PubWorker.State n EventKind.Event) {i j : QueueId n}
    (q : RingQueue.State (Thread n) j.kind.Event) (hi : i ≠ j) :
    forwarded (w.setQueue j q) i = forwarded w i := by
  simp only [forwarded, State.setQueue, Function.update_of_ne hi]

/-- Publishing adds the event at the end of one queue; no other step adds anything. -/
theorem forwarded_step (hs : step registry s a = some t) (ha : a.NoParser) (j : QueueId n) :
    (forwarded t.worker j).Sublist (forwarded s.worker j) ∨
    ∃ item nowNs out, a = .onEvent .forwarder j.kind item nowNs ∧
      DataDispatcher.onEvent registry j.kind item nowNs = some out ∧ j.shard.val = 0 ∧
      forwarded t.worker j = forwarded s.worker j ++ [⟨j, out⟩] := by
  cases stepEffect hs with
  | ignored | outOfRange | countDrop | turn => exact .inl (List.Sublist.refl _)
  | @publish u k item out nowNs q hlt hout hu hq =>
    cases u with
    | parser i => exact ha.elim
    | forwarder =>
      obtain ⟨hidle, rfl⟩ := RingQueue.tryPush_eq_some hq
      change (forwarded (s.worker.setQueue ⟨⟨0, hlt⟩, k⟩ _) j).Sublist _ ∨
        ∃ item' nowNs' out', _ ∧ _ ∧ _ ∧ forwarded (s.worker.setQueue ⟨⟨0, hlt⟩, k⟩ _) j = _
      by_cases hj : j = ⟨⟨0, hlt⟩, k⟩
      · right
        subst hj
        refine ⟨item, nowNs, out, rfl, hout, rfl, ?_⟩
        change (s.worker.shardQueues ⟨⟨0, hlt⟩, k⟩).producers .forwarder = .idle at hidle
        rw [forwarded_setQueue, forwarded, hidle]
        simp only [RingQueue.State.setProducer, Function.update_self, RingQueue.Producer.item,
          Option.toList_some, Option.toList_none, List.append_nil, List.map_append, List.map_cons,
          List.map_nil]
        rfl
      · rw [forwarded_setQueue_of_ne _ _ hj]
        exact .inl (List.Sublist.refl _)
  | @produce u i q hu hq =>
    left
    change (forwarded (s.worker.setQueue i q) j).Sublist _
    by_cases hj : j = i
    · subst hj
      obtain rfl : u = .forwarder := by
        cases u with
        | forwarder => rfl
        | parser i => exact ha.elim
      obtain ⟨x, p, hx, hprod, hcases⟩ := RingQueue.produce_cases hq
      rw [forwarded_setQueue, forwarded, hprod, Function.update_self, hx]
      refine List.Sublist.map _ ?_
      rcases hcases with ⟨-, rfl, hacc⟩ | ⟨-, rfl, hacc⟩ | ⟨-, hp, hacc⟩
      · rw [hacc]
        show (_ ++ [x] ++ []).Sublist _
        rw [List.append_nil]
        exact List.Sublist.refl _
      · rw [hacc]
        exact List.Sublist.append_left (List.nil_sublist _) _
      · rw [hacc, hp]
    · rw [forwarded_setQueue_of_ne _ _ hj]
  | @pop _ c i hpub =>
    left
    change (forwarded (s.worker.setQueue i _) j).Sublist _
    by_cases hj : j = i
    · subst hj
      rw [forwarded_setQueue, (RingQueue.consume_accepted _).1, (RingQueue.consume_accepted _).2]
      exact List.Sublist.refl _
    · rw [forwarded_setQueue_of_ne _ _ hj]
  | send =>
    rw [send_worker]
    exact .inl (List.Sublist.refl _)

structure Forwarding (s : State n) : Prop where
  inv : Inv s
  priv : Private s
  parsers : ∀ i, s.worker.publishing (.parser i) = .outside
  inOrder : InOrder s
  /-- Only the queues of shard 0 are used. -/
  shard : Carries (fun j _ => j.shard.val = 0) s

namespace Forwarding

theorem init : Forwarding (init n) := ⟨.init, .init, fun _ => rfl, .init, .init⟩

theorem soleProducer (h : Forwarding s) (ha : a.NoParser)
    (hs : Publication.step registry s a = some t) : SoleProducer registry s a := by
  cases a with
  | onEvent u k item nowNs =>
    cases u with
    | parser i => exact ha.elim
    | forwarder =>
      intro _ hlt u
      by_contra hne
      have hpub := h.priv.publishing _ u hne
      cases u with
      | forwarder => cases (publishing_of_onEvent hs).symm.trans hpub
      | parser i => cases (h.parsers i).symm.trans hpub
  | advance | dispatchCycle | dispatch => trivial

theorem step_parsers (h : Forwarding s) (ha : a.NoParser)
    (hs : Publication.step registry s a = some t) (i : Fin n) :
    t.worker.publishing (.parser i) = .outside := by
  cases stepEffect hs with
  | ignored | outOfRange | turn | pop => exact h.parsers i
  | @publish u | @produce u | @countDrop u =>
    refine (Function.update_of_ne ?_ _ _).trans (h.parsers i)
    rintro rfl
    exact ha
  | send =>
    rw [send_worker]
    exact h.parsers i

theorem step (h : Forwarding s) (ha : a.NoParser) (hs : Publication.step registry s a = some t) :
    Forwarding t where
  inv := h.inv.step (h.soleProducer ha hs) hs
  priv := h.priv.step hs
  parsers := h.step_parsers ha hs
  inOrder := h.inOrder.step hs
  shard := by
    refine h.shard.step h.inv (fun u k item nowNs out heq _ hlt => ?_) hs
    cases u with
    | forwarder => rfl
    | parser i =>
      subst heq
      exact ha.elim

/-- What was sent from a queue was accepted by it, in this order. -/
theorem sent_sublist (h : Forwarding s) (j : QueueId n) :
    (s.sent.filter (·.1 = j)).Sublist ((s.worker.shardQueues j).accepted.map (Sigma.mk j)) := by
  have htaken : (s.sent.filter (·.1 = j)).Sublist (s.taken.filter (·.1 = j)) :=
    (List.sublist_append_left _ _).filter _
  exact (htaken.trans (h.inOrder j)).trans (((h.inv.worker.queue j).fifo.sublist).map _)

theorem sent_sublist_forwarded (h : Forwarding s) (j : QueueId n) :
    (s.sent.filter (·.1 = j)).Sublist (forwarded s.worker j) :=
  (h.sent_sublist j).trans ((List.sublist_append_left _ _).map _)

theorem shard_of_sent (h : Forwarding s) {e : Queued n} (he : e ∈ s.sent) : e.1.shard.val = 0 := by
  have hmem := (h.sent_sublist e.1).subset (List.mem_filter.mpr ⟨he, decide_eq_true rfl⟩)
  obtain ⟨x, hx, hxe⟩ := List.mem_map.mp hmem
  exact h.shard.accepted e.1 x hx

end Forwarding

end Publication

/-! ## The way of an event -/

namespace RithmicReceiver
open Publication (Queued forwarded)

variable {ι : Type*} {n : Nat} [DecidableEq ι] {registry : ChannelRegistry} {s t : State ι n}
  {as : List (Action ι n)}

/-- The event that a step begins to push. -/
def Action.push : Action ι n → Option Event
  | .gateway q a => a.reservation.map fun c => ⟨q, c.2⟩
  | _ => none

/-- The calls of `Push` and `TryPush` for events of kind `q`, in the order of their reservations. -/
def pushes (as : List (Action ι n)) (q : EventKind) : List Event :=
  (as.filterMap Action.push).filter (·.1 = q)

/-- The event is what the handler makes of the other one. -/
def Result (registry : ChannelRegistry) (e : Queued n) (x : Event) : Prop :=
  ∃ nowNs item, x = ⟨e.1.kind, item⟩ ∧
    DataDispatcher.onEvent registry e.1.kind item nowNs = some e.2

omit [DecidableEq ι] in
theorem pushes_concat (as : List (Action ι n)) (a : Action ι n) (q : EventKind) :
    pushes (as ++ [a]) q = pushes as q ++ (a.push.toList.filter (·.1 = q)) := by
  rw [pushes, List.filterMap_append, List.filter_append]
  refine congrArg (pushes as q ++ ·) ?_
  simp only [List.filterMap_cons, List.filterMap_nil]
  cases a.push <;> rfl

/-- The positions of each queue go to its pushes in their order. -/
def CalledBy (as : List (Action ι n)) (s : State ι n) : Prop :=
  ∀ q, ∃ calls, pushes as q = calls.map (Sigma.mk q) ∧ MpscRithmicQueue.Called calls (s.shm q)

namespace CalledBy

variable {a : Action ι n}

omit [DecidableEq ι] in
/-- A step that pushes nothing. -/
theorem of_push_none (h : CalledBy as s) (ha : a.push = none)
    (hshm : ∀ q calls, MpscRithmicQueue.Called calls (s.shm q) →
      MpscRithmicQueue.Called calls (t.shm q)) : CalledBy (as ++ [a]) t := by
  intro q
  obtain ⟨calls, heq, hcalls⟩ := h q
  refine ⟨calls, ?_, hshm q calls hcalls⟩
  rw [pushes_concat, ha, heq]
  exact List.append_nil _

theorem gateway (h : CalledBy as s) {q : EventKind} {b : MpscRithmicQueue.Action ι q.Event}
    {x : MpscRithmicQueue.State ι q.Event}
    (hx : MpscRithmicQueue.step q.shmCapacity (s.shm q) b = some x) :
    CalledBy (as ++ [.gateway q b]) { s with shm := Function.update s.shm q x } := by
  intro r
  obtain ⟨calls, heq, hcalls⟩ := h r
  rcases eq_or_ne r q with rfl | hne
  · refine ⟨calls ++ (b.reservation.map Prod.snd).toList, ?_, ?_⟩
    · rw [pushes_concat, heq, List.map_append]
      refine congrArg (calls.map (Sigma.mk r) ++ ·) ?_
      simp only [Action.push]
      cases b.reservation <;> simp
    · show MpscRithmicQueue.Called _ (Function.update s.shm r x r)
      rw [Function.update_self]
      exact hcalls.step hx
  · refine ⟨calls, ?_, ?_⟩
    · rw [pushes_concat, heq]
      simp only [Action.push]
      cases b.reservation <;> simp [hne.symm]
    · show MpscRithmicQueue.Called _ (Function.update s.shm q x r)
      rw [Function.update_of_ne hne]
      exact hcalls

theorem step (h : CalledBy as s) (hs : step registry s a = some t) : CalledBy (as ++ [a]) t := by
  cases effect_of_step hs with
  | gateway _ hx => exact h.gateway hx
  | restart => exact h.of_push_none rfl fun _ _ hc => hc.kill
  | @polled nowNs r =>
    refine h.of_push_none rfl fun q calls hc => ?_
    show MpscRithmicQueue.Called _ (Function.update s.shm r _ q)
    rcases eq_or_ne q r with rfl | hne
    · rw [Function.update_self]
      exact hc.consume
    · rw [Function.update_of_ne hne]
      exact hc
  | started | tested | handled | published | stop =>
    exact h.of_push_none rfl fun _ _ hc => hc
  | publication _ _ hquiet =>
    refine h.of_push_none ?_ fun _ _ hc => hc
    cases a with
    | gateway q b => exact absurd rfl (hquiet.1 q b)
    | _ => rfl

end CalledBy

/-- What the forwarder has published are results of events that were handled, in their order. -/
def ResultsInOrder (registry : ChannelRegistry) (s : State ι n) : Prop :=
  ∀ j, List.SublistForall₂ (Result registry) (forwarded s.publication.worker j)
    (s.handled.filter (·.1 = j.kind))

/-- An operation on the publication, by the forwarder or the pub thread. -/
theorem publication_step {s : Publication.State n} {handled : List Event} {b : Publication.Action n}
    {p : Publication.State n} (hb : b.NoParser) (hp : Publication.step registry s b = some p)
    {j : PubWorker.QueueId n} (h : List.SublistForall₂ (Result registry) (forwarded s.worker j)
      (handled.filter (·.1 = j.kind))) (more : List Event)
    (hmore : ∀ k item nowNs, b = .onEvent .forwarder k item nowNs → more = [⟨k, item⟩]) :
    List.SublistForall₂ (Result registry) (forwarded p.worker j)
      ((handled ++ more).filter (·.1 = j.kind)) := by
  rw [List.filter_append]
  rcases Publication.forwarded_step hp hb j with hsub | ⟨item, nowNs, out, rfl, hout, -, heq⟩
  · exact (h.of_sublist_left hsub).of_sublist_right (List.sublist_append_left _ _)
  · have hkind : ([⟨j.kind, item⟩] : List Event).filter (·.1 = j.kind) = [⟨j.kind, item⟩] :=
      List.filter_cons_of_pos (decide_eq_true rfl)
    rw [heq, hmore _ _ _ rfl, hkind]
    exact h.concat ⟨nowNs, item, rfl, hout⟩

/-- Each stage keeps the order. -/
structure Ordered (registry : ChannelRegistry) (as : List (Action ι n)) (s : State ι n) : Prop where
  inv : Inv s
  calledBy : CalledBy as s
  publication : Publication.Forwarding s.publication
  results : ResultsInOrder registry s

namespace Ordered

omit [DecidableEq ι] in
theorem init : Ordered registry [] (init : State ι n) where
  inv := .init
  calledBy _ := ⟨[], rfl, .init⟩
  publication := .init
  results _ := .nil

theorem step (h : Ordered registry as s) {a : Action ι n} (ha : Undisturbed s a)
    (hs : step registry s a = some t) : Ordered registry (as ++ [a]) t := by
  have hinv := h.inv.step ha hs
  have hcalled := h.calledBy.step hs
  cases effect_of_step hs with
  | gateway | restart | started | tested | polled | published | stop =>
    exact ⟨hinv, hcalled, h.publication, h.results⟩
  | @handled nowNs k event p hpc hp =>
    have hno : (Publication.Action.onEvent (n := n) .forwarder k event nowNs).NoParser := trivial
    refine ⟨hinv, hcalled, h.publication.step hno hp, fun j => ?_⟩
    refine publication_step hno hp (h.results j) _ fun k' item nowNs' heq => ?_
    cases heq
    rfl
  | @publication _ b p hb hp =>
    have hno : b.NoParser := by
      rcases hb with rfl | ⟨_, rfl⟩ | ⟨_, rfl⟩ <;> trivial
    refine ⟨hinv, hcalled, h.publication.step hno hp, fun j => ?_⟩
    have hstep := publication_step hno hp (h.results j) [] fun k item nowNs heq => by
      rcases hb with rfl | ⟨_, rfl⟩ | ⟨_, rfl⟩ <;> cases heq
    rw [List.append_nil] at hstep
    exact hstep

end Ordered

theorem result_of_sentinel (hzero : registry 0 = none) {e : Queued n} {k : EventKind}
    {x y : k.Event} (h : Result registry e ⟨k, x⟩) (hxy : x = y ∨ x = default) :
    Result registry e ⟨k, y⟩ := by
  rcases hxy with rfl | rfl
  · exact h
  · -- no channel has the id of the sentinel
    obtain ⟨⟨shard, k⟩, out⟩ := e
    obtain ⟨nowNs, item, hitem, hout⟩ := h
    cases hitem
    have hnone : DataDispatcher.onEvent registry k default nowNs = none := by
      cases k
      · exact congrArg (Option.map _) hzero
      · exact congrArg (Option.map _) hzero
      · exact congrArg (Option.map _) hzero
    cases hnone.symm.trans hout

omit [DecidableEq ι] in
theorem Ordered.handled_forall₂ (h : Ordered registry as s) (k : EventKind) :
    ∃ popped taken, (s.handled.filter (·.1 = k)).Sublist (popped.map (Sigma.mk k)) ∧
      (taken.map (Sigma.mk k)).Sublist (pushes as k) ∧
      List.Forall₂ (fun v event => v = event ∨ v = default) popped taken := by
  obtain ⟨calls, heq, hcalls⟩ := h.calledBy k
  refine ⟨_, _, ?_, ?_, (h.inv.queue k).popped_forall₂ hcalls⟩
  · rw [← h.inv.handled k]
    exact (List.sublist_append_left _ _).filter _
  · rw [heq]
    exact (List.take_sublist _ _).map _

/-- In every run in which sentinels only go into freed slots and kills fall between pushes, with a
registry in which no channel has the id of the sentinel: the messages of each kind leave in the
order in which the gateway has pushed their events, none of them twice. -/
theorem sent_in_push_order (registry : ChannelRegistry) (hzero : registry 0 = none)
    (as : List (Action ι n)) (s : State ι n)
    (hu : (machine ι registry n).Along Undisturbed init as)
    (hs : (machine ι registry n).exec init as = some s) (k : EventKind) :
    List.SublistForall₂ (Result registry) (s.publication.sent.filter (·.1.kind = k))
      (pushes as k) := by
  have hord : Ordered registry as s :=
    (machine ι registry n).exec_history (R := Ordered registry)
      (fun _ _ _ _ hR ha hstep => hR.step ha hstep) .init hu hs
  have hone : ∃ l, (s.publication.sent.filter (·.1.kind = k)).Sublist l ∧
      List.SublistForall₂ (Result registry) l (s.handled.filter (·.1 = k)) := by
    rcases Nat.eq_zero_or_pos n with rfl | hn
    · refine ⟨[], ?_, .nil⟩
      have hnil : s.publication.sent = [] :=
        List.eq_nil_iff_forall_not_mem.mpr fun e _ => e.1.shard.elim0
      rw [hnil]
      exact List.Sublist.refl _
    · -- every message comes from the queue of shard 0
      refine ⟨_, ?_, hord.results ⟨⟨0, hn⟩, k⟩⟩
      have hfilter : s.publication.sent.filter (·.1.kind = k) =
          s.publication.sent.filter (·.1 = ⟨⟨0, hn⟩, k⟩) := by
        refine List.filter_congr fun e he => decide_eq_decide.mpr ?_
        have hshard := hord.publication.shard_of_sent he
        obtain ⟨⟨shard, kind⟩, out⟩ := e
        change shard.val = 0 at hshard
        simp [Fin.ext_iff, hshard]
      rw [hfilter]
      exact hord.publication.sent_sublist_forwarded ⟨⟨0, hn⟩, k⟩
  obtain ⟨l, hsub, hl⟩ := hone
  obtain ⟨popped, taken, hpopped, htaken, hall⟩ := hord.handled_forall₂ k
  refine List.SublistForall₂.of_sublist_right ?_ htaken
  refine ((hl.of_sublist_left hsub).of_sublist_right hpopped).of_forall₂_right
    (S := fun x y => ∀ e : Queued n, Result registry e x → Result registry e y)
    (List.forall₂_map_left_iff.mpr (List.forall₂_map_right_iff.mpr
      (hall.imp fun x y hxy e he => result_of_sentinel hzero he hxy))) fun e x y he hxy => hxy e he

/-- Two threads of the gateway push a tick each, the second one finishes first; then both ticks are
forwarded and sent. -/
def twoTicks : List (Action Bool 1) :=
  [.gateway .tick (.tryPush false { (default : TickData) with channelId := 7, tradeId := 1 }),
    .gateway .tick (.tryPush true { (default : TickData) with channelId := 7, tradeId := 2 })] ++
    List.replicate 3 (.gateway .tick (.produce true)) ++
    List.replicate 3 (.gateway .tick (.produce false)) ++ List.replicate 30 (.receive 0) ++
    (List.replicate 2 (.dispatchCycle 0 :: List.replicate 13 (.dispatch {}))).flatten

theorem twoTicks_sent :
    oneFuture 0 = none ∧ (machine Bool oneFuture 1).Along Undisturbed init twoTicks ∧
    ((machine Bool oneFuture 1).exec init twoTicks).map (·.publication.sent.length) = some 2 ∧
    ∀ s, (machine Bool oneFuture 1).exec init twoTicks = some s →
      List.SublistForall₂ (Result oneFuture) (s.publication.sent.filter (·.1.kind = .tick))
        (pushes twoTicks .tick) :=
  ⟨rfl, by decide +kernel, by decide +kernel,
    fun s hs => sent_in_push_order oneFuture rfl twoTicks s (by decide +kernel) hs .tick⟩

end RithmicReceiver

end Sqc
