import Mathlib.Algebra.Order.BigOperators.Group.List
import SmartQuantCollector.Lib.RoundRobin
import SmartQuantCollector.Pubsub.DispatchCycle

/-! # `DrainAll` (`src/pubsub/pub_worker.cpp`)

After `Stop` the pub thread empties its queues alone. A queue is then the list of the events in it,
and `TrySendOne` takes the first one. What the buffer pool and the socket answer to the `k`-th event
of a queue is `answer j k`; as every event is offered at most once, this covers all patterns of
answers.

`DrainAll` repeats `DispatchCycle` as long as an event was *sent* in it. It always returns, but a
cycle in which every queue's first event is refused ends it, whatever the queues still hold
(`drainAll_empties_iff`). `Drains` relates the lists to the ring queues of `Publication`, where a
cycle is a run of the pub thread (`Drains.dispatchCycle`). -/

namespace Sqc
open Concurrency

namespace PubWorker

variable {n : Nat} {registry : ChannelRegistry} {answer : QueueId n → Nat → SendAnswer}

/-- A queue without producers. -/
structure Backlog (k : EventKind) where
  /-- The events in the queue, the oldest first. -/
  items : List k.Event
  /-- The events that were handed to `SendTyped`. -/
  offered : List k.Event := []

def trySendOne (registry : ChannelRegistry) (answer : QueueId n → Nat → SendAnswer)
    (j : QueueId n) (q : Backlog j.kind) : Backlog j.kind × Bool :=
  match q.items with
  | [] => (q, false)
  | item :: items =>
    (⟨items, q.offered ++ [item]⟩,
      sendTyped registry j.kind item.channelId (answer j q.offered.length) = .sent)

theorem queueAt_lt (idx : Fin (n * 3)) : idx / 3 < n :=
  Nat.div_lt_of_lt_mul (Nat.mul_comm n 3 ▸ idx.isLt)

/-- The queue with an index of `DispatchCycle`. -/
def queueAt (idx : Fin (n * 3)) : QueueId n := ⟨⟨idx / 3, queueAt_lt idx⟩, queueType (idx % 3)⟩

/-- The queues in the order of one cycle. -/
def cycleOrder (n cursor : Nat) : List (QueueId n) :=
  (RoundRobin.rotation (n * 3) cursor).map queueAt

/-- The loop of `DispatchCycle`, with the value of `any_work`. -/
def dispatchCycle (registry : ChannelRegistry) (answer : QueueId n → Nat → SendAnswer)
    (cursor : Nat) (d : ∀ j : QueueId n, Backlog j.kind) (anyWork : Bool) :
    (∀ j : QueueId n, Backlog j.kind) × Bool :=
  RoundRobin.pollAll (trySendOne registry answer) (cycleOrder n cursor) d anyWork

/-- `DrainAll`, up to the given number of cycles. -/
def drainAll (registry : ChannelRegistry) (answer : QueueId n → Nat → SendAnswer) (fuel : Nat)
    (queues : ∀ j : QueueId n, List j.kind.Event) : Option (∀ j : QueueId n, Backlog j.kind) :=
  RoundRobin.pollLoop (trySendOne registry answer) (cycleOrder n)
    (fun cursor => (cursor + 1) % (n * 3)) fuel (fun j => ⟨queues j, []⟩) 0

/-- The number of events in the queues. -/
def eventCount (queues : ∀ j : QueueId n, List j.kind.Event) : Nat :=
  ((cycleOrder n 0).map fun j => (queues j).length).sum

/-- Event `c` of one of the queues is sent. -/
def SendsAt (registry : ChannelRegistry) (answer : QueueId n → Nat → SendAnswer)
    (queues : ∀ j : QueueId n, List j.kind.Event) (c : Nat) : Prop :=
  ∃ j x, (queues j)[c]? = some x ∧ sendTyped registry j.kind x.channelId (answer j c) = .sent

/-! ## The order of the queues -/

theorem queueType_injOn {a b : Nat} (ha : a < 3) (hb : b < 3) (h : queueType a = queueType b) :
    a = b := by
  have cases_of_lt {x : Nat} (hx : x < 3) : x = 0 ∨ x = 1 ∨ x = 2 := by omega
  rcases cases_of_lt ha with rfl | rfl | rfl
  all_goals
    rcases cases_of_lt hb with rfl | rfl | rfl
    all_goals first | rfl | cases h

theorem queueAt_injective : Function.Injective (queueAt : Fin (n * 3) → QueueId n) := by
  intro a b h
  obtain ⟨hshard, hkind⟩ := QueueId.mk.inj h
  have hdiv : (a : Nat) / 3 = (b : Nat) / 3 := Fin.val_eq_of_eq hshard
  have hmod : (a : Nat) % 3 = (b : Nat) % 3 :=
    queueType_injOn (Nat.mod_lt _ (by decide)) (Nat.mod_lt _ (by decide)) hkind
  exact Fin.ext (by omega)

theorem exists_queueType (k : EventKind) : ∃ a < 3, queueType a = k := by
  cases k with
  | tick => exact ⟨0, by decide, rfl⟩
  | depth => exact ⟨1, by decide, rfl⟩
  | bookTicker => exact ⟨2, by decide, rfl⟩

theorem queueAt_surjective : Function.Surjective (queueAt : Fin (n * 3) → QueueId n) := by
  rintro ⟨shard, kind⟩
  obtain ⟨a, ha, rfl⟩ := exists_queueType kind
  have hlt := shard.isLt
  have hdiv : (shard * 3 + a) / 3 = (shard : Nat) := by omega
  have hmod : (shard * 3 + a) % 3 = a := by omega
  refine ⟨⟨shard * 3 + a, by omega⟩, ?_⟩
  simp only [queueAt, hdiv, hmod, Fin.eta]

theorem nodup_cycleOrder (cursor : Nat) : (cycleOrder n cursor).Nodup :=
  (RoundRobin.nodup_rotation _ cursor).map queueAt_injective

theorem mem_cycleOrder (cursor : Nat) (j : QueueId n) : j ∈ cycleOrder n cursor := by
  obtain ⟨idx, rfl⟩ := queueAt_surjective j
  exact List.mem_map_of_mem (RoundRobin.mem_rotation cursor idx)

theorem length_cycleOrder (cursor : Nat) : (cycleOrder n cursor).length = n * 3 := by
  simp [cycleOrder, RoundRobin.rotation]

/-- The queue of turn `c.i`, while `cursor + i` does not wrap around. -/
theorem drop_cycleOrder {c : Cycle} (hsize : c.cursor.toNat + n * 3 ≤ 2 ^ 64)
    (hi : c.i < n * 3) :
    (cycleOrder n c.cursor.toNat).drop c.i =
      c.queue hi :: (cycleOrder n c.cursor.toNat).drop (c.i + 1) := by
  have hlt : c.i < (cycleOrder n c.cursor.toNat).length := by rwa [length_cycleOrder]
  have hsum : (c.cursor + .ofNat c.i).toNat = c.cursor.toNat + c.i := by
    rw [UInt64.toNat_add, UInt64.toNat_ofNat']
    omega
  rw [List.drop_eq_getElem_cons hlt]
  simp [cycleOrder, RoundRobin.rotation, queueAt, Cycle.queue, hsum]

theorem toNat_nextCursor {cursor : UInt64} (hsize : n * 6 ≤ 2 ^ 64)
    (hcursor : cursor.toNat < n * 3) :
    ((cursor + 1) % .ofNat (n * 3)).toNat = (cursor.toNat + 1) % (n * 3) := by
  have hsucc : (cursor + 1).toNat = cursor.toNat + 1 := by
    rw [UInt64.toNat_add]
    simp only [UInt64.reduceToNat]
    omega
  have htotal : (UInt64.ofNat (n * 3)).toNat = n * 3 := by
    rw [UInt64.toNat_ofNat']
    omega
  rw [UInt64.toNat_mod, hsucc, htotal]

theorem length_le_eventCount (queues : ∀ j : QueueId n, List j.kind.Event) (j : QueueId n) :
    (queues j).length ≤ eventCount queues :=
  List.le_sum_of_mem (List.mem_map_of_mem (mem_cycleOrder 0 j))

/-! ## The cycles -/

theorem getElem?_of_drop_eq_cons {α : Type*} {l items : List α} {c : Nat} {item : α}
    (h : l.drop c = item :: items) : l[c]? = some item := by
  rw [← List.head?_drop, h]
  rfl

/-- After `c` calls of `TrySendOne` the first `c` events have left the queue. -/
theorem polled_trySendOne (queues : ∀ j : QueueId n, List j.kind.Event) (c : Nat) (j : QueueId n) :
    RoundRobin.polled (trySendOne registry answer) (fun j => ⟨queues j, []⟩) c j =
      ⟨(queues j).drop c, (queues j).take c⟩ := by
  induction c with
  | zero => rfl
  | succ c ih =>
    rw [RoundRobin.polled] at ih ⊢
    rw [Function.iterate_succ_apply', ih, List.take_add_one, ← List.tail_drop]
    cases h : (queues j).drop c with
    | nil =>
      rw [List.getElem?_eq_none (List.drop_eq_nil_iff.mp h), Option.toList_none, List.append_nil]
      rfl
    | cons item items =>
      rw [getElem?_of_drop_eq_cons h]
      rfl

theorem trySendOne_works {c : Nat} {queues : ∀ j : QueueId n, List j.kind.Event} {j : QueueId n} :
    (trySendOne registry answer j ⟨(queues j).drop c, (queues j).take c⟩).2 = true ↔
      ∃ x, (queues j)[c]? = some x ∧
        sendTyped registry j.kind x.channelId (answer j c) = .sent := by
  cases h : (queues j).drop c with
  | nil =>
    rw [List.getElem?_eq_none (List.drop_eq_nil_iff.mp h)]
    simp [trySendOne]
  | cons item items =>
    have hget := getElem?_of_drop_eq_cons h
    have hlt : c < (queues j).length := (List.getElem?_eq_some_iff.mp hget).1
    simp [trySendOne, hget, Nat.min_eq_left (Nat.le_of_lt hlt)]

/-- Some cycle sends nothing, at the latest the one behind the last event. -/
theorem exists_first_idle (registry : ChannelRegistry) (answer : QueueId n → Nat → SendAnswer)
    (queues : ∀ j : QueueId n, List j.kind.Event) :
    ∃ c ≤ eventCount queues, ¬ SendsAt registry answer queues c ∧
      ∀ c' < c, SendsAt registry answer queues c' := by
  have hlast : ¬ SendsAt registry answer queues (eventCount queues) := by
    rintro ⟨j, x, hx, -⟩
    have hlt := (List.getElem?_eq_some_iff.mp hx).1
    exact absurd (length_le_eventCount queues j) (Nat.not_le.mpr hlt)
  classical
  have hidle : ∃ c, ¬ SendsAt registry answer queues c := ⟨_, hlast⟩
  exact ⟨Nat.find hidle, Nat.find_min' hidle hlast, Nat.find_spec hidle,
    fun c' hc' => not_not.mp (Nat.find_min hidle hc')⟩

/-- `DrainAll` returns after the first cycle that sends nothing. -/
theorem drainAll_eq {queues : ∀ j : QueueId n, List j.kind.Event} {c fuel : Nat}
    (hidle : ¬ SendsAt registry answer queues c)
    (hwork : ∀ c' < c, SendsAt registry answer queues c') (hfuel : c < fuel) :
    drainAll registry answer fuel queues =
      some fun j => ⟨(queues j).drop (c + 1), (queues j).take (c + 1)⟩ := by
  refine (RoundRobin.pollLoop_eq (c := c) nodup_cycleOrder mem_cycleOrder (fun c' hc' => ?_)
    (fun j => ?_) hfuel).trans ?_
  · obtain ⟨j, x, hx⟩ := hwork c' hc'
    refine ⟨j, ?_⟩
    rw [polled_trySendOne, trySendOne_works]
    exact ⟨x, hx⟩
  · rw [polled_trySendOne, ← Bool.not_eq_true, trySendOne_works]
    exact fun ⟨x, hx⟩ => hidle ⟨j, x, hx⟩
  · exact congrArg some (funext fun j => polled_trySendOne queues (c + 1) j)

/-- `DrainAll` returns, and what it took from the queues was offered once and in order. It leaves
all queues empty exactly when, as long as some queue holds a further event, one of the first events
of the queues is sent. -/
theorem drainAll_empties_iff (registry : ChannelRegistry)
    (answer : QueueId n → Nat → SendAnswer) (queues : ∀ j : QueueId n, List j.kind.Event) :
    ∃ d, (∀ fuel > eventCount queues, drainAll registry answer fuel queues = some d) ∧
      (∀ j, (d j).offered ++ (d j).items = queues j) ∧
      ((∀ j, (d j).items = []) ↔
        ∀ c, (∃ j, c + 1 < (queues j).length) → SendsAt registry answer queues c) := by
  obtain ⟨c, hle, hidle, hwork⟩ := exists_first_idle registry answer queues
  refine ⟨_, fun fuel hfuel => drainAll_eq hidle hwork (by omega),
    fun j => List.take_append_drop _ _, ?_⟩
  simp only [List.drop_eq_nil_iff]
  constructor
  · rintro hempty c' ⟨j, hj⟩
    have := hempty j
    exact hwork c' (by omega)
  · intro hsent j
    apply Nat.le_of_not_lt
    intro hlt
    exact hidle (hsent c ⟨j, hlt⟩)

/-- Two ticks in the tick queue of the only shard. -/
def twoTicks : ∀ j : QueueId 1, List j.kind.Event
  | ⟨_, .tick⟩ => [trade 1, trade 2]
  | ⟨_, .depth⟩ | ⟨_, .bookTicker⟩ => []

def btcChannel : ChannelRegistry := fun _ =>
  some { exchange := "binance", symbol := "BTCUSDT", topicPrefix := "binance:spot:BTCUSDT" }

/-- The socket is at its high-water mark: the first tick is refused and the second stays behind. -/
theorem refused_tick_ends_drain :
    ∃ d, drainAll btcChannel (fun _ _ => { topicSent := false }) 3 twoTicks = some d ∧
      eventCount twoTicks = 2 ∧ (d tickQueue0).offered = [trade 1] ∧
      (d tickQueue0).items = [trade 2] := by
  have hrun : (drainAll btcChannel (fun _ _ => { topicSent := false }) 3 twoTicks).map
      (fun d => (((d tickQueue0).offered, (d tickQueue0).items) : List TickData × List TickData)) =
      some ([trade 1], [trade 2]) := by decide +kernel
  obtain ⟨d, hd, hlists⟩ := Option.map_eq_some_iff.mp hrun
  obtain ⟨hoffered, hitems⟩ := Prod.mk.inj hlists
  exact ⟨d, hd, by decide, hoffered, hitems⟩

end PubWorker

/-! ## The cycles as runs of the pub thread -/

namespace Publication
open PubWorker

variable {n : Nat} {registry : ChannelRegistry} {answer : QueueId n → Nat → SendAnswer}
  {s t : State n} {c : Cycle} {j : QueueId n}

/-- The state with another queue `j` and another pub thread. -/
def State.withQueue (s : State n) (j : QueueId n) (q : RingQueue.State (Thread n) j.kind.Event)
    (popping : Option (QueueId n)) (pub : PubThread n) : State n :=
  { s with worker := { s.worker.setQueue j q with popping := popping }, pub := pub }

@[simp] theorem State.withQueue_queue (s : State n) (q : RingQueue.State (Thread n) j.kind.Event)
    (popping : Option (QueueId n)) (pub : PubThread n) :
    (s.withQueue j q popping pub).worker.shardQueues j = q :=
  Function.update_self ..

theorem State.withQueue_of_ne {i : QueueId n} (h : i ≠ j) (s : State n)
    (q : RingQueue.State (Thread n) j.kind.Event) (popping : Option (QueueId n))
    (pub : PubThread n) :
    (s.withQueue j q popping pub).worker.shardQueues i = s.worker.shardQueues i :=
  Function.update_of_ne h ..

@[simp] theorem State.withQueue_withQueue (s : State n)
    (q q' : RingQueue.State (Thread n) j.kind.Event) (p p' : Option (QueueId n))
    (pub pub' : PubThread n) :
    (s.withQueue j q p pub).withQueue j q' p' pub' = s.withQueue j q' p' pub' := by
  simp only [withQueue, PubWorker.State.setQueue, Function.update_idem]

theorem pop_runs (hres : RingQueue.popResult (s.worker.shardQueues j) = none)
    (hrun : (RingQueue.consume (ring _ j.kind) (s.worker.shardQueues j)).consumer.isIdle = false) :
    pop s c j = s.withQueue j (RingQueue.consume (ring _ j.kind) (s.worker.shardQueues j)) (some j)
      (.popping c j) := by
  simp [pop, consume, State.withQueue, PubWorker.State.setQueue, hres, hrun]

theorem pop_fails (hres : RingQueue.popResult (s.worker.shardQueues j) = none)
    (hidle : (RingQueue.consume (ring _ j.kind) (s.worker.shardQueues j)).consumer.isIdle = true) :
    pop s c j = s.withQueue j (RingQueue.consume (ring _ j.kind) (s.worker.shardQueues j)) none
      (.looping (c.next false)) := by
  simp [pop, consume, State.withQueue, PubWorker.State.setQueue, hres, hidle]

theorem pop_returns {x : j.kind.Event}
    (hres : RingQueue.popResult (s.worker.shardQueues j) = some x) :
    pop s c j = s.withQueue j (RingQueue.consume (ring _ j.kind) (s.worker.shardQueues j)) none
      (.sending c ⟨j, x⟩) := by
  have hidle : (RingQueue.consume (ring _ j.kind) (s.worker.shardQueues j)).consumer.isIdle =
      true := by
    rw [RingQueue.consume_idle_of_popResult hres]
    rfl
  simp [pop, consume, State.withQueue, PubWorker.State.setQueue, hres, hidle]

/-! ### `TrySendOne` -/

theorem step_popping (hpub : s.pub = .popping c j) (a : SendAnswer) :
    (machine registry n).step s (.dispatch a) = some (pop s c j) := by
  simp only [machine, step, dispatch, hpub]

theorem consume_idle (hidle : (s.worker.shardQueues j).consumer = .idle) :
    pop s c j = s.withQueue j
      { s.worker.shardQueues j with consumer := .loadWrite (s.worker.shardQueues j).readPos }
      (some j) (.popping c j) := by
  have hconsume : RingQueue.consume (ring _ j.kind) (s.worker.shardQueues j) =
      { s.worker.shardQueues j with consumer := .loadWrite (s.worker.shardQueues j).readPos } := by
    simp only [RingQueue.consume, hidle]
  rw [← hconsume]
  refine pop_runs ?_ ?_
  · simp only [RingQueue.popResult, hidle]
  · rw [hconsume]
    rfl

/-- A `try_pop` on an empty queue. -/
theorem exec_tryPop_empty (hinv : Inv s) (hpopping : s.worker.popping = none)
    (hpub : s.pub = .popping c j)
    (hempty : (s.worker.shardQueues j).accepted = (s.worker.shardQueues j).popped)
    (a : SendAnswer) :
    (machine registry n).exec s [.dispatch a, .dispatch a] =
      some { s with pub := .looping (c.next false) } := by
  have hidle : (s.worker.shardQueues j).consumer = .idle :=
    hinv.worker.consumer j (by simp [hpopping])
  have hempty' : (ring EventKind.Event j.kind).empty (s.worker.shardQueues j).readPos
      (s.worker.shardQueues j).writePos = true :=
    ((hinv.worker.queue j).empty_iff (ring_lawful j.kind) trivial).mpr (by rw [hempty])
  rw [Machine.exec_cons, step_popping hpub, Option.bind_some, Machine.exec_singleton,
    consume_idle hidle, step_popping rfl, pop_fails]
  · rw [State.withQueue_withQueue, State.withQueue_queue]
    simp only [RingQueue.consume, if_pos hempty', State.withQueue, PubWorker.State.setQueue]
    have hsame : { s.worker.shardQueues j with consumer := .idle } = s.worker.shardQueues j := by
      rw [← hidle]
    rw [hsame, Function.update_eq_self, ← hpopping]
  · rw [State.withQueue_queue]
    rfl
  · rw [State.withQueue_queue]
    simp only [RingQueue.consume, if_pos hempty']
    rfl

/-- A `try_pop` on a queue with events. -/
theorem exec_tryPop {x : j.kind.Event} {rest : List j.kind.Event} (hinv : Inv s)
    (hpopping : s.worker.popping = none) (hpub : s.pub = .popping c j)
    (hitems : (s.worker.shardQueues j).accepted = (s.worker.shardQueues j).popped ++ x :: rest)
    (a : SendAnswer) :
    (machine registry n).exec s (List.replicate 4 (.dispatch a)) =
      some (s.withQueue j ((ring _ j.kind).afterPop (s.worker.shardQueues j)) none
        (.sending c ⟨j, x⟩)) ∧
      ((ring _ j.kind).afterPop (s.worker.shardQueues j)).popped =
        (s.worker.shardQueues j).popped ++ [x] := by
  have hidle : (s.worker.shardQueues j).consumer = .idle :=
    hinv.worker.consumer j (by simp [hpopping])
  have hlt : (s.worker.shardQueues j).popped.length < (s.worker.shardQueues j).accepted.length := by
    simp [hitems]
  obtain ⟨-, hpop⟩ := (hinv.worker.queue j).pop (ring_lawful j.kind) trivial hidle hlt
  have hx : ((ring _ j.kind).afterPop (s.worker.shardQueues j)).popped =
      (s.worker.shardQueues j).popped ++ [x] := by
    rw [hpop]
    simp [hitems]
  have hne : ¬ (ring EventKind.Event j.kind).empty (s.worker.shardQueues j).readPos
      (s.worker.shardQueues j).writePos = true := by
    rw [(hinv.worker.queue j).empty_iff (ring_lawful j.kind) trivial]
    omega
  refine ⟨?_, hx⟩
  have hslot : (s.worker.shardQueues j).slots ((ring EventKind.Event j.kind).index
      (s.worker.shardQueues j).readPos) = x := by
    simpa [RingQueue.afterPop] using hx
  show (machine registry n).exec s [.dispatch a, .dispatch a, .dispatch a, .dispatch a] = _
  rw [Machine.exec_cons, step_popping hpub, Option.bind_some, consume_idle hidle,
    Machine.exec_cons, step_popping rfl, Option.bind_some, pop_runs, State.withQueue_withQueue,
    State.withQueue_queue, Machine.exec_cons, step_popping rfl, Option.bind_some, pop_runs,
    State.withQueue_withQueue, State.withQueue_queue, Machine.exec_singleton, step_popping rfl,
    pop_returns (x := x), State.withQueue_withQueue, State.withQueue_queue]
  · simp only [RingQueue.consume, if_neg hne]
    rfl
  · rw [State.withQueue_queue]
    simp only [RingQueue.consume, if_neg hne]
    exact congrArg some hslot
  all_goals
    rw [State.withQueue_queue]
    simp only [RingQueue.consume, if_neg hne]
    rfl

/-- The queues hold the events of `d`, and the events of `before` and those offered in `d` have been
popped. -/
structure Drains (before : ∀ j : QueueId n, List j.kind.Event) (s : State n)
    (d : ∀ j : QueueId n, Backlog j.kind) : Prop where
  inv : Inv s
  popping : s.worker.popping = none
  popped : ∀ j, (s.worker.shardQueues j).popped = before j ++ (d j).offered
  accepted : ∀ j, (s.worker.shardQueues j).accepted =
    (s.worker.shardQueues j).popped ++ (d j).items

/-- The pub thread takes the step. -/
def Action.ofPubThread : Action n → Bool
  | .onEvent .. | .advance _ => false
  | .dispatchCycle _ | .dispatch _ => true

theorem SoleProducer.ofPubThread {a : Action n} (h : a.ofPubThread = true) :
    SoleProducer registry s a := by
  cases a with
  | onEvent | advance => cases h
  | dispatchCycle | dispatch => trivial

theorem Inv.exec {as : List (Action n)} (h : Inv s) (has : ∀ a ∈ as, a.ofPubThread = true)
    (hrun : (machine registry n).exec s as = some t) : Inv t := by
  have hstep : ∀ (s : State n) (a : Action n) (t : State n), Inv s → a.ofPubThread = true →
      (machine registry n).step s a = some t → Inv t :=
    fun _ _ _ hI ha hs => hI.step (.ofPubThread ha) hs
  exact (machine registry n).exec_invariant hstep h
    ((machine registry n).along_of_forall has) hrun

theorem Inv.turn {a : Action n} {p : PubThread n} (h : Inv s) (ha : a.ofPubThread = true)
    (hs : (machine registry n).step s a = some { s with pub := p }) : Inv { s with pub := p } :=
  h.exec (List.forall_mem_singleton.mpr ha) ((Machine.exec_singleton _ s a).trans hs)

namespace Drains

variable {before : ∀ j : QueueId n, List j.kind.Event} {d : ∀ j : QueueId n, Backlog j.kind}
  (registry : ChannelRegistry) (answer : QueueId n → Nat → SendAnswer)

/-- One turn of the loop of `DispatchCycle`. -/
theorem trySendOne (h : Drains before s d) (hpub : s.pub = .looping c) (hi : c.i < n * 3)
    (hj : c.queue hi = j) :
    ∃ as t, (∀ a ∈ as, a.ofPubThread = true) ∧ (machine registry n).exec s as = some t ∧
      Drains before t (Function.update d j (PubWorker.trySendOne registry answer j (d j)).1) ∧
      t.pub = .looping (c.next (PubWorker.trySendOne registry answer j (d j)).2) := by
  obtain ⟨a, ha⟩ : ∃ a, a = answer j (d j).offered.length := ⟨_, rfl⟩
  have hall (m : Nat) : ∀ b ∈ List.replicate m (Action.dispatch (n := n) a),
      b.ofPubThread = true := fun b hb => by rw [List.eq_of_mem_replicate hb]; rfl
  have henter : (machine registry n).step s (.dispatch a) =
      some { s with pub := .popping c j } := by
    simp only [machine, step, dispatch, hpub, dif_pos hi, hj]
  have hinv : Inv { s with pub := .popping c j } :=  h.inv.turn rfl henter
  cases hitems : (d j).items with
  | nil =>
    have hempty : (s.worker.shardQueues j).accepted = (s.worker.shardQueues j).popped := by
      rw [h.accepted, hitems, List.append_nil]
    have hrun : (machine registry n).exec s (List.replicate 3 (.dispatch a)) =
        some { s with pub := .looping (c.next false) } := by
      rw [List.replicate_succ, Machine.exec_cons, henter]
      exact exec_tryPop_empty hinv h.popping rfl hempty a
    have hsend : PubWorker.trySendOne registry answer j (d j) = (d j, false) := by
      simp only [PubWorker.trySendOne, hitems]
    rw [hsend, Function.update_eq_self]
    exact ⟨_, _, hall 3, hrun, ⟨h.inv.exec (hall 3) hrun, h.popping, h.popped, h.accepted⟩, rfl⟩
  | cons x rest =>
    have hacc : (s.worker.shardQueues j).accepted =
        (s.worker.shardQueues j).popped ++ x :: rest := by rw [h.accepted, hitems]
    obtain ⟨hpops, hpopped⟩ := exec_tryPop hinv h.popping rfl hacc a
    have hrun : (machine registry n).exec s
        ([.dispatch a] ++ List.replicate 4 (.dispatch a) ++ [.dispatch a]) =
        some (send registry ({ s with pub := .popping c j }.withQueue j
          ((ring EventKind.Event j.kind).afterPop (s.worker.shardQueues j)) none
          (.sending c ⟨j, x⟩)) c ⟨j, x⟩ a) := by
      rw [Machine.exec_append, Machine.exec_append, Machine.exec_singleton, henter,
        Option.bind_some, hpops, Option.bind_some, Machine.exec_singleton]
      rfl
    have hsend : PubWorker.trySendOne registry answer j (d j) =
        ((⟨rest, (d j).offered ++ [x]⟩ : Backlog j.kind),
          decide (sendTyped registry j.kind x.channelId a = .sent)) := by
      simp only [PubWorker.trySendOne, hitems, ha]
    rw [hsend]
    refine ⟨_, _, hall 6, hrun, ⟨h.inv.exec (hall 6) hrun, ?_, fun i => ?_, fun i => ?_⟩, rfl⟩
    · rw [send_worker]
      rfl
    · rw [send_worker]
      rcases eq_or_ne i j with rfl | hne
      · rw [State.withQueue_queue, hpopped, h.popped, Function.update_self, List.append_assoc]
      · rw [Function.update_of_ne hne, State.withQueue_of_ne hne]
        exact h.popped i
    · rw [send_worker]
      rcases eq_or_ne i j with rfl | hne
      · rw [State.withQueue_queue, hpopped, Function.update_self, List.append_assoc]
        exact hacc
      · rw [Function.update_of_ne hne, State.withQueue_of_ne hne]
        exact h.accepted i

/-- The loop of `DispatchCycle` from its turn `c.i` on. -/
theorem loop (h : Drains before s d) (hpub : s.pub = .looping c)
    (hsize : c.cursor.toNat + n * 3 ≤ 2 ^ 64) {k : Nat} (hk : c.i + k = n * 3) :
    ∃ as t, (∀ a ∈ as, a.ofPubThread = true) ∧ (machine registry n).exec s as = some t ∧
      Drains before t (RoundRobin.pollAll (PubWorker.trySendOne registry answer)
        ((cycleOrder n c.cursor.toNat).drop c.i) d c.anyWork).1 ∧
      t.pub = .looping ⟨c.cursor, n * 3, (RoundRobin.pollAll (PubWorker.trySendOne registry answer)
        ((cycleOrder n c.cursor.toNat).drop c.i) d c.anyWork).2⟩ := by
  induction k generalizing s d c with
  | zero =>
    have hi : c.i = n * 3 := by omega
    have hnil : (cycleOrder n c.cursor.toNat).drop c.i = [] :=
      List.drop_eq_nil_iff.mpr (by rw [length_cycleOrder, hi])
    rw [hnil]
    refine ⟨[], s, List.forall_mem_nil _, rfl, h, ?_⟩
    rw [hpub, ← hi]
    rfl
  | succ k ih =>
    have hi : c.i < n * 3 := by omega
    obtain ⟨as, u, has, hu, hdrains, hupub⟩ := h.trySendOne registry answer hpub hi rfl
    obtain ⟨bs, t, hbs, ht, hrest⟩ := ih hdrains hupub hsize (by
      show c.i + 1 + k = n * 3
      omega)
    refine ⟨as ++ bs, t, List.forall_mem_append.mpr ⟨has, hbs⟩, ?_, ?_⟩
    · rw [Machine.exec_append, hu]
      exact ht
    · rw [drop_cycleOrder hsize hi]
      exact hrest

/-- A call of `DispatchCycle` is a run of the pub thread. -/
theorem dispatchCycle (h : Drains before s d) {old : UInt64} {any : Bool}
    (hpub : s.pub = .outside old any) (cursor : UInt64)
    (hsize : cursor.toNat + n * 3 ≤ 2 ^ 64) :
    ∃ as t, (∀ a ∈ as, a.ofPubThread = true) ∧ (machine registry n).exec s as = some t ∧
      Drains before t (PubWorker.dispatchCycle registry answer cursor.toNat d false).1 ∧
      t.pub = .outside ((cursor + 1) % .ofNat (n * 3))
        (PubWorker.dispatchCycle registry answer cursor.toNat d false).2 := by
  have henter : (machine registry n).step s (.dispatchCycle cursor) =
      some { s with pub := .looping { cursor := cursor } } := by
    simp only [machine, step, hpub]
  have hinv : Inv { s with pub := .looping { cursor := cursor } } := h.inv.turn rfl henter
  have hstart : Drains before { s with pub := .looping { cursor := cursor } } d :=
    ⟨hinv, h.popping, h.popped, h.accepted⟩
  obtain ⟨as, t, has, ht, hdrains, htpub⟩ :=
    hstart.loop registry answer rfl hsize (Nat.zero_add _)
  obtain ⟨p, hp⟩ : ∃ p : PubThread n, p = .outside ((cursor + 1) % .ofNat (n * 3))
      (PubWorker.dispatchCycle registry answer cursor.toNat d false).2 := ⟨_, rfl⟩
  have hleave : (machine registry n).step t (.dispatch {}) = some { t with pub := p } := by
    simp only [machine, step, dispatch, htpub]
    rw [dif_neg (Nat.lt_irrefl _), hp]
    rfl
  refine ⟨.dispatchCycle cursor :: as ++ [.dispatch {}], _, ?_, ?_,
    ⟨hdrains.inv.turn rfl hleave, hdrains.popping, hdrains.popped, hdrains.accepted⟩, hp⟩
  · exact List.forall_mem_append.mpr
      ⟨List.forall_mem_cons.mpr ⟨rfl, has⟩, List.forall_mem_singleton.mpr rfl⟩
  · rw [List.cons_append, Machine.exec_cons, henter, Option.bind_some, Machine.exec_append, ht,
      Option.bind_some, Machine.exec_singleton]
    exact hleave

/-- Cycles that are repeated as long as one of them sends an event. -/
theorem pollLoop (hsize : n * 6 ≤ 2 ^ 64) {d₀ : ∀ j : QueueId n, Backlog j.kind}
    (h : Drains before s d₀) {old : UInt64} {any : Bool} (hpub : s.pub = .outside old any)
    (cursor : UInt64) (hcursor : cursor.toNat < n * 3) {fuel : Nat}
    (hd : RoundRobin.pollLoop (PubWorker.trySendOne registry answer) (cycleOrder n)
      (fun cursor => (cursor + 1) % (n * 3)) fuel d₀ cursor.toNat = some d) :
    ∃ as t, (∀ a ∈ as, a.ofPubThread = true) ∧ (machine registry n).exec s as = some t ∧
      Drains before t d := by
  induction fuel generalizing s d₀ old any cursor with
  | zero => cases hd
  | succ fuel ih =>
    obtain ⟨as, t, has, ht, hdrains, htpub⟩ :=
      h.dispatchCycle registry answer hpub cursor (by omega)
    rw [RoundRobin.pollLoop] at hd
    split at hd
    · have hnext := toNat_nextCursor hsize hcursor
      rw [← hnext] at hd
      have hlt : ((cursor + 1) % .ofNat (n * 3)).toNat < n * 3 := by
        rw [hnext]
        exact Nat.mod_lt _ (Nat.zero_lt_of_lt hcursor)
      obtain ⟨bs, u, hbs, hu, hend⟩ := ih hdrains htpub _ hlt hd
      refine ⟨as ++ bs, u, List.forall_mem_append.mpr ⟨has, hbs⟩, ?_, hend⟩
      rw [Machine.exec_append, ht]
      exact hu
    · cases hd
      exact ⟨as, t, has, ht, hdrains⟩

/-- `DrainAll` is a run of the pub thread, for as many shards as the indices can count. -/
theorem drainAll (hn : 0 < n) (hsize : n * 6 ≤ 2 ^ 64)
    {queues : ∀ j : QueueId n, List j.kind.Event} {fuel : Nat}
    (h : Drains before s fun j => ⟨queues j, []⟩) {old : UInt64} {any : Bool}
    (hpub : s.pub = .outside old any)
    (hd : PubWorker.drainAll registry answer fuel queues = some d) :
    ∃ as t, (∀ a ∈ as, a.ofPubThread = true) ∧ (machine registry n).exec s as = some t ∧
      Drains before t d :=
  h.pollLoop registry answer hsize hpub 0 (Nat.mul_pos hn (by decide)) hd

end Drains

end Publication

end Sqc
