import SmartQuantCollector.Common.MarketEvent
import SmartQuantCollector.Common.SpscQueue

/-! # `PubWorker` (`src/pubsub/pub_worker.cpp`) and its publishing threads

`PubWorker` owns three `SPSCQueue`s for each of its `num_shards_` shards. `BuildParserPool` gives
parser worker `i` a `DataDispatcher` with `shard_idx` `i`, and `RithmicProcessManager::Setup` gives
the forwarder thread one with `shard_idx` `0`, so with both subsystems running shard `0` has two
producers. While their pushes do not overlap nothing is lost (`delivers_of_soleProducer`); when
they do, both may write the same slot and one event is gone (`overlapping_publishes_lose_event`).

The pub thread may try the queues in any order, which covers the round-robin of `DispatchCycle`
from every cursor. What it does with an event it has popped is not part of this model. -/

namespace Sqc
open Concurrency

namespace PubWorker

/-- The publishing threads: a parser worker for each shard, and the Rithmic forwarder. -/
inductive Thread (n : Nat) where
  | parser (i : Fin n)
  | forwarder
deriving DecidableEq

/-- The `shard_idx` of the thread's `DataDispatcher`. -/
def Thread.shardIdx {n : Nat} : Thread n → Nat
  | .parser i => i
  | .forwarder => 0

/-- One of the queues of `ShardQueues`. -/
structure QueueId (n : Nat) where
  shard : Fin n
  kind : EventKind
deriving DecidableEq

/-- Where a thread stands in `PublishTick`, `PublishDepth` or `PublishBookTicker`. -/
inductive Publishing (n : Nat) where
  | outside
  | tryPush (j : QueueId n)
  /-- `dropped_queue_count_.fetch_add(1)`. -/
  | countDrop
deriving DecidableEq

/-- `T k` is the type of the events of kind `k`. -/
structure State (n : Nat) (T : EventKind → Type*) where
  shardQueues : ∀ j : QueueId n, RingQueue.State (Thread n) (T j.kind)
  publishing : Thread n → Publishing n
  /-- The queue of the pub thread's `try_pop` in progress. -/
  popping : Option (QueueId n)
  droppedQueueCount : UInt64

inductive Action (n : Nat) (T : EventKind → Type*) where
  /-- Thread `t` publishes an event with its own `shard_idx`. -/
  | publish (t : Thread n) (k : EventKind) (item : T k)
  /-- The next atomic operation of the publish in progress on thread `t`. -/
  | advance (t : Thread n)
  /-- The pub thread calls `try_pop`. -/
  | tryPop (j : QueueId n)
  /-- The next atomic operation of the `try_pop` in progress. -/
  | pop

variable {n : Nat} {T : EventKind → Type*} {s t : State n T}

theorem queueCapacity_exp_lt : 12 < 64 := by decide

/-- The capacity of the three queues of a shard. -/
def queueCapacity : Capacity := ⟨12, queueCapacity_exp_lt⟩

example : queueCapacity.val = 4096 := by decide

def ring (T : EventKind → Type*) (k : EventKind) : RingQueue (T k) :=
  SpscQueue.ring (T k) queueCapacity

namespace State

def setQueue (s : State n T) (j : QueueId n) (q : RingQueue.State (Thread n) (T j.kind)) :
    State n T := { s with shardQueues := Function.update s.shardQueues j q }

def setPublishing (s : State n T) (t : Thread n) (p : Publishing n) : State n T :=
  { s with publishing := Function.update s.publishing t p }

end State

def publish (s : State n T) (t : Thread n) (k : EventKind) (item : T k) : Option (State n T) :=
  match s.publishing t with
  | .outside =>
    if h : t.shardIdx < n then
      let j : QueueId n := ⟨⟨t.shardIdx, h⟩, k⟩
      (RingQueue.tryPush (s.shardQueues j) t item).map fun q =>
        (s.setQueue j q).setPublishing t (.tryPush j)
    -- `if(shard >= num_shards_) return;`
    else some s
  | _ => none

def advance (s : State n T) (t : Thread n) : Option (State n T) :=
  match s.publishing t with
  | .outside => none
  | .tryPush j =>
    (RingQueue.produce (ring T j.kind) (s.shardQueues j) t).map fun q =>
      (s.setQueue j q).setPublishing t <|
        match RingQueue.pushResult (ring T j.kind) (s.shardQueues j) t with
        | none => .tryPush j
        | some true => .outside
        | some false => .countDrop
  | .countDrop =>
    some ({ s with droppedQueueCount := s.droppedQueueCount + 1 }.setPublishing t .outside)

/-- One atomic operation of `try_pop` on queue `j`. -/
def consume (s : State n T) (j : QueueId n) : State n T :=
  let q := RingQueue.consume (ring T j.kind) (s.shardQueues j)
  { s.setQueue j q with popping := if q.consumer.isIdle then none else some j }

def step (s : State n T) : Action n T → Option (State n T)
  | .publish t k item => publish s t k item
  | .advance t => advance s t
  | .tryPop j =>
    match s.popping with
    | none => some (consume s j)
    | some _ => none
  | .pop => s.popping.map (consume s)

def init (n : Nat) (T : EventKind → Type*) [∀ k, Inhabited (T k)] : State n T where
  shardQueues _ := RingQueue.init _ default
  publishing _ := .outside
  popping := none
  droppedQueueCount := 0

def machine (n : Nat) (T : EventKind → Type*) [∀ k, Inhabited (T k)] :
    Machine (State n T) (Action n T) where
  init := init n T
  step := step

/-- No thread starts a push on a queue while another one is in a push on the same queue. -/
def SoleProducer (s : State n T) : Action n T → Prop
  | .publish t k _ => ∀ h : t.shardIdx < n, RingQueue.Exclusive (s.shardQueues ⟨⟨t.shardIdx, h⟩, k⟩)
  | _ => True

/-- `m` calls of `try_pop` on queue `j` that find an event, with no other thread moving. -/
def popRun (j : QueueId n) : Nat → List (Action n T)
  | 0 => []
  | m + 1 => [.tryPop j, .pop, .pop, .pop] ++ popRun j m

/-- No accepted event of queue `j` is lost. `accepted` and `popped` are the events for which
`try_push` and `try_pop` returned true, in order. -/
structure Delivers [∀ k, Inhabited (T k)] (s : State n T) (j : QueueId n) : Prop where
  /-- What was popped are accepted events, each once, unaltered and in order. -/
  popped : (s.shardQueues j).popped <+: (s.shardQueues j).accepted
  /-- An accepted event that no `try_pop` has read lies unaltered in its slot. -/
  intact : ∀ {p x}, (s.shardQueues j).head ≤ p → (s.shardQueues j).accepted[p]? = some x →
    (s.shardQueues j).slots (p % queueCapacity.val) = x
  /-- A slot that is about to be written holds no unread event. -/
  spares : ∀ {t x w p}, (s.shardQueues j).producers t = .writeSlot x w →
    (s.shardQueues j).popped.length ≤ p → p < (s.shardQueues j).accepted.length →
    p % queueCapacity.val ≠ (ring T j.kind).index w
  /-- Popping returns all that is left. -/
  drains : s.popping = none → ∃ m t, (machine n T).exec s (popRun j m) = some t ∧
    (t.shardQueues j).popped = (s.shardQueues j).accepted

/-! ## The invariant -/

structure Inv (s : State n T) : Prop where
  queue : ∀ j, RingQueue.Inv (ring T j.kind) (s.shardQueues j)
  consumer : ∀ j, s.popping ≠ some j → (s.shardQueues j).consumer = .idle

theorem ring_lawful (k : EventKind) : (ring T k).Lawful fun _ => True :=
  SpscQueue.lawful queueCapacity

namespace Inv

theorem init [∀ k, Inhabited (T k)] : Inv (init n T) where
  queue _ := .init
  consumer _ _ := rfl

/-- A step on queue `j` only. -/
theorem setQueue (h : Inv s) {j : QueueId n} {q : RingQueue.State (Thread n) (T j.kind)}
    (hq : RingQueue.Inv (ring T j.kind) q) {p : Option (QueueId n)}
    (hp : ∀ i ≠ j, p ≠ some i → s.popping ≠ some i) (hj : p ≠ some j → q.consumer = .idle) :
    Inv { s.setQueue j q with popping := p } where
  queue i := by
    show RingQueue.Inv _ (Function.update s.shardQueues j q i)
    rcases eq_or_ne i j with rfl | hi
    · rw [Function.update_self]
      exact hq
    · rw [Function.update_of_ne hi]
      exact h.queue i
  consumer i hi := by
    show (Function.update s.shardQueues j q i).consumer = .idle
    rcases eq_or_ne i j with rfl | hij
    · rw [Function.update_self]
      exact hj hi
    · rw [Function.update_of_ne hij]
      exact h.consumer i (hp i hij hi)

theorem setPublishing (h : Inv s) {u : Thread n} {p : Publishing n} : Inv (s.setPublishing u p) :=
  ⟨h.queue, h.consumer⟩

/-- A step of a publishing thread on its queue. -/
theorem push (h : Inv s) {j : QueueId n} {q : RingQueue.State (Thread n) (T j.kind)}
    (hq : RingQueue.Inv (ring T j.kind) q) (hk : q.consumer = (s.shardQueues j).consumer)
    {u : Thread n} {p : Publishing n} : Inv ((s.setQueue j q).setPublishing u p) :=
  (h.setQueue hq (fun _ _ hi => hi) fun hj => hk.trans (h.consumer j hj)).setPublishing

theorem consume (h : Inv s) {j : QueueId n} (hp : s.popping = none ∨ s.popping = some j) :
    Inv (consume s j) := by
  refine h.setQueue ((h.queue j).consume (ring_lawful j.kind) trivial) (fun i hi _ => ?_) ?_
  · rcases hp with hp | hp
    · rw [hp]
      nofun
    · rw [hp]
      exact fun heq => hi (Option.some.inj heq).symm
  · intro hne
    split at hne
    next hidle =>
      revert hidle
      cases (RingQueue.consume (ring T j.kind) (s.shardQueues j)).consumer <;> simp [
        RingQueue.Consumer.isIdle]
    next => exact absurd rfl hne

theorem step (h : Inv s) {a : Action n T} (ha : SoleProducer s a) (hs : step s a = some t) :
    Inv t := by
  cases a with
  | publish u k item =>
    simp only [PubWorker.step, publish] at hs
    split at hs
    next hu =>
      split at hs
      next hlt =>
        obtain ⟨q, hq, rfl⟩ := Option.map_eq_some_iff.mp hs
        have hinv := (h.queue _).tryPush (ha hlt) hq
        obtain ⟨-, rfl⟩ := RingQueue.tryPush_eq_some hq
        exact h.push hinv rfl
      next =>
        cases hs
        exact h
    next => cases hs
  | advance u =>
    simp only [PubWorker.step, advance] at hs
    split at hs
    next => cases hs
    next j hu =>
      obtain ⟨q, hq, rfl⟩ := Option.map_eq_some_iff.mp hs
      exact h.push ((h.queue j).produce (ring_lawful j.kind) hq) (RingQueue.produce_consumer hq).1
    next =>
      cases hs
      exact ⟨h.queue, h.consumer⟩
  | tryPop j =>
    simp only [PubWorker.step] at hs
    split at hs
    next hp =>
      cases hs
      exact h.consume (.inl hp)
    next => cases hs
  | pop =>
    obtain ⟨j, hj, rfl⟩ := Option.map_eq_some_iff.mp hs
    exact h.consume (.inr hj)

end Inv

/-! ## Delivery -/

theorem consume_setQueue (s : State n T) {j : QueueId n} (p : Option (QueueId n))
    (q : RingQueue.State (Thread n) (T j.kind)) :
    consume { s.setQueue j q with popping := p } j =
      { s.setQueue j (RingQueue.consume (ring T j.kind) q) with
        popping := if (RingQueue.consume (ring T j.kind) q).consumer.isIdle then none
          else some j } := by
  simp only [consume, State.setQueue, Function.update_self, Function.update_idem]

section
variable [∀ k, Inhabited (T k)]

/-- A `try_pop` on a queue with an unread event, with no other thread moving. -/
theorem exec_pop {j : QueueId n} (hp : s.popping = none)
    (hk : (s.shardQueues j).consumer = .idle)
    (hne : (ring T j.kind).empty (s.shardQueues j).readPos (s.shardQueues j).writePos = false) :
    (machine n T).exec s [.tryPop j, .pop, .pop, .pop] =
      some (s.setQueue j ((ring T j.kind).afterPop (s.shardQueues j))) := by
  have hself : s = { s.setQueue j (s.shardQueues j) with popping := none } := by
    simp only [State.setQueue, Function.update_eq_self, ← hp]
  have hafter : ∀ q, s.setQueue j q = { s.setQueue j q with popping := none } := by
    simp only [State.setQueue, ← hp, implies_true]
  rw [hafter]
  refine Eq.trans (congrArg ((machine n T).exec · _) hself) ?_
  generalize s.shardQueues j = q at hk hne
  obtain ⟨w, r, slots, ps, k, acc, pop⟩ := q
  cases hk
  -- the second operation is the only one that branches
  have h2 : RingQueue.consume (ring T j.kind)
      (⟨w, r, slots, ps, .loadWrite r, acc, pop⟩ : RingQueue.State (Thread n) (T j.kind)) =
      ⟨w, r, slots, ps, .readSlot r, acc, pop⟩ := if_neg (Bool.eq_false_iff.mp hne)
  refine (Machine.exec_cons_iff _).mpr ⟨_, congrArg some (consume_setQueue s none _), ?_⟩
  refine (Machine.exec_cons_iff _).mpr ⟨_, congrArg some (consume_setQueue s (some j) _), ?_⟩
  rw [show RingQueue.consume (ring T j.kind) (RingQueue.consume (ring T j.kind)
    (⟨w, r, slots, ps, .idle, acc, pop⟩ : RingQueue.State (Thread n) (T j.kind))) = _ from h2]
  refine (Machine.exec_cons_iff _).mpr ⟨_, congrArg some (consume_setQueue s (some j) _), ?_⟩
  exact (Machine.exec_singleton _ _ _).trans (congrArg some (consume_setQueue s (some j) _))

theorem Inv.delivers (h : Inv s) (j : QueueId n) : Delivers s j where
  popped := (h.queue j).fifo
  intact := (h.queue j).slot_eq
  spares {u x w p} hu hp hp' := by
    have hok := (h.queue j).producer u
    rw [hu] at hok
    rw [hok.1, (h.queue j).writePos_eq, RingQueue.index_ofNat]
    exact (h.queue j).mod_ne hp hp' hok.2
  drains hpop := by
    generalize hd : (s.shardQueues j).accepted.length - (s.shardQueues j).popped.length = d
    induction d generalizing s with
    | zero =>
      have hq := h.queue j
      exact ⟨0, s, rfl, hq.fifo.eq_of_length (Nat.le_antisymm hq.length_le (by omega))⟩
    | succ d ih =>
      have hq := h.queue j
      have hk := h.consumer j (by rw [hpop]; nofun)
      have hne : (ring T j.kind).empty (s.shardQueues j).readPos (s.shardQueues j).writePos =
          false := by
        rw [← Bool.not_eq_true, hq.empty_iff (ring_lawful j.kind) trivial]
        omega
      have hrun := exec_pop hpop hk hne
      obtain ⟨hfour, hpopped⟩ := hq.pop (ring_lawful j.kind) trivial hk (by omega)
      have hself : ((s.setQueue j ((ring T j.kind).afterPop (s.shardQueues j))).shardQueues j) =
          (ring T j.kind).afterPop (s.shardQueues j) := Function.update_self ..
      have hinv : Inv (s.setQueue j ((ring T j.kind).afterPop (s.shardQueues j))) :=
        h.setQueue (hfour ▸ (hq.consume_iterate (ring_lawful j.kind) trivial 4).1)
          (fun _ _ hi => hi) fun _ => rfl
      obtain ⟨m, t, hm, ht⟩ := ih hinv hpop (by
        rw [hself, hpopped, List.length_append, List.length_singleton]
        show (s.shardQueues j).accepted.length - _ = d
        omega)
      refine ⟨m + 1, t, Machine.exec_trans _ hrun hm, ht.trans ?_⟩
      rw [hself]
      rfl

end

/-- In every run of the wiring that the program builds, for every number of parser cores, in which
no push starts on a queue inside another thread's push, no accepted publish is lost. -/
theorem delivers_of_soleProducer (n : Nat) (T : EventKind → Type*) [∀ k, Inhabited (T k)]
    (as : List (Action n T)) (s : State n T) (hs : (machine n T).exec (init n T) as = some s)
    (hsole : (machine n T).Along SoleProducer (init n T) as) (j : QueueId n) : Delivers s j :=
  ((machine n T).exec_invariant (fun _ _ _ h ha => h.step ha) Inv.init hsole hs).delivers j

/-! ### One shard: a parser worker and the forwarder -/

def trade (id : UInt64) : TickData := { (default : TickData) with tradeId := id }

abbrev parser0 : Thread 1 := .parser ⟨0, Nat.one_pos⟩

/-- The tick queue of shard `0`. -/
abbrev tickQueue0 : QueueId 1 := ⟨⟨0, Nat.one_pos⟩, .tick⟩

/-- The parser and the forwarder both load `write_pos_` before either of them stores it. -/
def overlapping : List (Action 1 EventKind.Event) :=
  [.publish parser0 .tick (trade 1), .publish .forwarder .tick (trade 2),
    .advance parser0, .advance parser0, .advance parser0,
    .advance .forwarder, .advance .forwarder, .advance .forwarder]

/-- Both pushes return true; `try_pop` returns the forwarder's trade, and after it the queue is
empty. -/
theorem overlapping_publishes_lose_event :
    ∃ s, (machine 1 EventKind.Event).exec (init 1 EventKind.Event)
        (overlapping ++ popRun tickQueue0 1) = some s ∧
      (s.shardQueues tickQueue0).accepted = [trade 1, trade 2] ∧
      (s.shardQueues tickQueue0).popped = [trade 2] ∧
      (∃ t, (machine 1 EventKind.Event).exec s [.tryPop tickQueue0, .pop] = some t ∧
        t.popping = none ∧ (t.shardQueues tickQueue0).popped = [trade 2]) ∧
      ¬ Delivers s tickQueue0 := by
  refine ⟨_, rfl, rfl, rfl, ⟨_, rfl, rfl, rfl⟩, fun h => ?_⟩
  have hfirst : trade 2 = trade 1 := (List.cons_prefix_cons.mp h.popped).1
  exact absurd (congrArg TickData.tradeId hfirst) (by decide)

/-- The same publishes one after the other. -/
def alternating : List (Action 1 EventKind.Event) :=
  [.publish parser0 .tick (trade 1), .advance parser0, .advance parser0, .advance parser0,
    .publish .forwarder .tick (trade 2), .advance .forwarder, .advance .forwarder,
    .advance .forwarder]

theorem alternating_publishes_delivered :
    ∃ s, (machine 1 EventKind.Event).exec (init 1 EventKind.Event) alternating = some s ∧
      (s.shardQueues tickQueue0).accepted = [trade 1, trade 2] ∧ Delivers s tickQueue0 := by
  refine ⟨_, rfl, rfl, delivers_of_soleProducer 1 _ alternating _ rfl ?_ _⟩
  refine ⟨fun _ _ => rfl, ?_⟩
  rintro _ ⟨⟩
  refine ⟨trivial, ?_⟩
  rintro _ ⟨⟩
  refine ⟨trivial, ?_⟩
  rintro _ ⟨⟩
  refine ⟨trivial, ?_⟩
  rintro _ ⟨⟩
  -- the parser's push has returned when the forwarder's starts
  refine ⟨fun _ i => ?_, fun _ _ => ⟨trivial, fun _ _ => ⟨trivial, fun _ _ => ⟨trivial, fun _ _ =>
    trivial⟩⟩⟩⟩
  cases i with
  | parser i =>
    obtain rfl : i = 0 := Subsingleton.elim _ _
    rfl
  | forwarder => rfl

end PubWorker

end Sqc
