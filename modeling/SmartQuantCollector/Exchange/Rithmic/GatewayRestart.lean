import SmartQuantCollector.Common.MarketEvent
import SmartQuantCollector.Exchange.Rithmic.RithmicQueueDelivery

/-! # The shared-memory queues across gateway restarts

`RithmicProcessManager::Setup` constructs the three queues of `rithmic_shm.h` once. `CheckHealth`
may kill the gateway between any two atomic operations and spawn a new one, which opens the same
region and pushes into the queues as it finds them. The queues themselves are not touched by the
restart: a position that the killed process had reserved and not published stays unpublished, and
the consumer never gets past it (`killed_push_blocks_consumer`). When every kill falls between
pushes the new gateway's events are delivered (`acceptedReachable_of_killsBetweenPushes`). -/

namespace Sqc
open Concurrency

/-- `kTickQueueCapacity`, `kDepthQueueCapacity` and `kBookTickerQueueCapacity`. -/
def EventKind.shmCapacity : EventKind → Capacity
  | .tick => ⟨14, by decide⟩
  | .depth => ⟨8, by decide⟩
  | .bookTicker => ⟨10, by decide⟩

example : (EventKind.tick.shmCapacity.val, EventKind.depth.shmCapacity.val,
    EventKind.bookTicker.shmCapacity.val) = (16384, 256, 1024) := by decide

theorem EventKind.shmCapacity_exp_pos (k : EventKind) : 0 < k.shmCapacity.exp := by
  cases k <;> decide

namespace MpscRithmicQueue

variable {ι T : Type*}

/-- The threads of the gateway die where they stand. Nothing of the queue changes, and the threads
of the next gateway start outside a push. -/
def State.kill (s : State ι T) : State ι T := { s with producers := fun _ => .idle }

/-- A kill keeps the invariant when it leaves no reserved position behind. -/
theorem Inv.kill [Inhabited T] {c : Capacity} {s : State ι T} (h : Inv c s)
    (hfree : ∀ i, (s.producers i).position = none) : Inv c s.kill where
  popped_length := h.popped_length
  popped_value := h.popped_value
  sequence_eq := h.sequence_eq
  data_eq := h.data_eq
  outcome_lt := h.outcome_lt
  held h := by cases h
  held_inj h := by cases h
  holder hp ho := by
    obtain ⟨i, hi⟩ := h.holder hp ho
    rw [hfree i] at hi
    cases hi
  producer _ := trivial
  consumer := h.consumer

end MpscRithmicQueue

namespace Shm
open MpscRithmicQueue

/-- `T q` is the event type of queue `q`. -/
abbrev State (ι : Type*) (T : EventKind → Type*) := ∀ q, MpscRithmicQueue.State ι (T q)

inductive Action (ι : Type*) (T : EventKind → Type*) where
  /-- An atomic operation on one of the queues. -/
  | queue (q : EventKind) (a : MpscRithmicQueue.Action ι (T q))
  /-- `SIGKILL` by `CheckHealth`, then `SpawnChild`. -/
  | restart

variable {ι : Type*} {T : EventKind → Type*} [DecidableEq ι] [∀ q, Inhabited (T q)]
  {s t : State ι T}

def step (s : State ι T) : Action ι T → Option (State ι T)
  | .queue q a => (MpscRithmicQueue.step q.shmCapacity (s q) a).map (Function.update s q)
  | .restart => some fun q => (s q).kill

def machine (ι : Type*) (T : EventKind → Type*) [DecidableEq ι] [∀ q, Inhabited (T q)] :
    Machine (State ι T) (Action ι T) where
  init _ := MpscRithmicQueue.init
  step := step

/-- No kill falls between the reservation of a position and its publication, and sentinels only go
into freed slots. -/
def KillsBetweenPushes (s : State ι T) : Action ι T → Prop
  | .queue q a => DropsIntoFreedSlot q.shmCapacity (s q) a
  | .restart => ∀ q i, ((s q).producers i).position = none

instance [Fintype ι] : ∀ a, Decidable (KillsBetweenPushes s a)
  | .queue q a => inferInstanceAs (Decidable (DropsIntoFreedSlot q.shmCapacity (s q) a))
  | .restart => inferInstanceAs (Decidable (∀ q i, ((s q).producers i).position = none))

/-- The event pushed at `p` was accepted and has not been popped. -/
def Unread {T : Type*} (s : MpscRithmicQueue.State ι T) (p : Nat) : Prop :=
  ∃ e, s.outcomes p = some (.accepted e) ∧ s.popped.length ≤ p

/-- Accepted events can be reached by the consumer of each queue. -/
structure AcceptedReachable (s : State ι T) : Prop where
  /-- While no live push is in progress and an accepted event is unread, `TryPop` returns true. -/
  pops : ∀ {q p}, (s q).Quiet → Unread (s q) p → ∃ t out, Pops q.shmCapacity (s q) t out
  /-- Popping until false returns every accepted event. -/
  drains : ∀ {q}, (s q).Quiet → ∃ n t,
    (MpscRithmicQueue.machine ι (T q) q.shmCapacity).exec (s q) (consumerRun n) = some t ∧
      PopFails q.shmCapacity t ∧ ∀ {p e}, (s q).outcomes p = some (.accepted e) →
        t.popped[p]? = some e

theorem inv_step (h : ∀ q, Inv q.shmCapacity (s q)) {a : Action ι T} (ha : KillsBetweenPushes s a)
    (hs : step s a = some t) : ∀ q, Inv q.shmCapacity (t q) := by
  cases a with
  | queue q a =>
    obtain ⟨u, hu, rfl⟩ := Option.map_eq_some_iff.mp hs
    intro r
    rcases eq_or_ne r q with rfl | hr
    · rw [Function.update_self]
      exact (h r).step r.shmCapacity_exp_pos ha hu
    · rw [Function.update_of_ne hr]
      exact h r
  | restart =>
    cases hs
    exact fun q => (h q).kill (ha q)

theorem acceptedReachable_of_inv (h : ∀ q, Inv q.shmCapacity (s q)) : AcceptedReachable s where
  pops {q p} hquiet hp := by
    obtain ⟨e, he, hlen⟩ := hp
    have hfreed : (s q).freed = (s q).readPos := by simp only [State.freed, hquiet.2]
    have hlt : (s q).readPos < (s q).writePos := by
      have := ((h q).outcome_lt he).1
      have := (h q).popped_length
      omega
    obtain ⟨o, -, hpop⟩ := (h q).pops_of_quiet hquiet hlt
    exact ⟨_, _, hpop⟩
  drains {q} hquiet := ((h q).keepsPromise q.shmCapacity_exp_pos).drains hquiet

/-- In every run, with any number of restarts, in which each kill falls between pushes and
sentinels go into freed slots, every state reached delivers what was accepted. -/
theorem acceptedReachable_of_killsBetweenPushes (as : List (Action ι T)) (s : State ι T)
    (hs : (machine ι T).exec (machine ι T).init as = some s)
    (hk : (machine ι T).Along KillsBetweenPushes (machine ι T).init as) : AcceptedReachable s :=
  acceptedReachable_of_inv <|
    (machine ι T).exec_invariant (fun _ _ _ h ha => inv_step h ha) (fun _ => Inv.init) hk hs

/-! ### One restart, in the middle of a push and between two pushes -/

def depthEvent (id : UInt64) : DepthUpdateEvent := { (default : DepthUpdateEvent) with
  lastUpdateId := id }

/-- A push into the depth queue that finds its slot free. -/
def pushDepth (e : DepthUpdateEvent) : List (Action Unit EventKind.Event) :=
  [.queue .depth (.tryPush () e), .queue .depth (.produce ()), .queue .depth (.produce ()),
    .queue .depth (.produce ())]

/-- The gateway is killed right after it reserved position `0`; the new one pushes an event, which
is accepted at position `1`, and `TryPop` returns false for good. -/
theorem killed_push_blocks_consumer :
    ∃ s : State Unit EventKind.Event,
      (machine Unit EventKind.Event).exec (machine Unit EventKind.Event).init
        ([.queue .depth (.tryPush () (depthEvent 1)), .restart] ++ pushDepth (depthEvent 2)) =
          some s ∧
      (s .depth).Quiet ∧ Unread (s .depth) 1 ∧ PopFails EventKind.depth.shmCapacity (s .depth) ∧
      ¬ AcceptedReachable s := by
  refine ⟨_, rfl, ⟨fun _ => rfl, rfl⟩, ⟨depthEvent 2, rfl, Nat.zero_le 1⟩, ?fails, fun h => ?_⟩
  case fails => exact popFails_of_sequence rfl (by decide)
  obtain ⟨t, out, hpop⟩ := h.pops (q := .depth) (p := 1) ⟨fun _ => rfl, rfl⟩
    ⟨depthEvent 2, rfl, Nat.zero_le 1⟩
  exact not_pops_of_popFails (popFails_of_sequence rfl (by decide)) hpop

theorem acceptedReachable_after_clean_restart :
    ∃ s : State Unit EventKind.Event,
      (machine Unit EventKind.Event).exec (machine Unit EventKind.Event).init
        (pushDepth (depthEvent 1) ++ [.restart] ++ pushDepth (depthEvent 2)) = some s ∧
      Unread (s .depth) 0 ∧ Unread (s .depth) 1 ∧ AcceptedReachable s := by
  refine ⟨_, rfl, ⟨depthEvent 1, rfl, Nat.le_refl 0⟩, ⟨depthEvent 2, rfl, Nat.zero_le 1⟩, ?_⟩
  apply acceptedReachable_of_killsBetweenPushes
    (pushDepth (depthEvent 1) ++ [.restart] ++ pushDepth (depthEvent 2)) _ rfl
  decide

end Shm

end Sqc
