import SmartQuantCollector.Lib.Machine
import SmartQuantCollector.Lib.Ring

/-! # `MpscRithmicQueue` (`src/exchange/rithmic/rithmic_queue.h`)

The bounded multi-producer single-consumer queue between the Rithmic gateway and the collector,
as a machine whose actions are the single atomic operations of `TryPush`, `Push` and `TryPop`.
Any number of producer threads (the type `ι`) and one consumer interleave freely.

Positions and sequences are natural numbers here. `RithmicQueueWords` has the same queue with the
64-bit words of the source, and shows that it runs as this one does as long as fewer than `2 ^ 64`
reserved positions wait for the consumer.

Besides the queue's own words the state records what the calls returned: `outcomes pos` is set
when the push that reserved `pos` publishes its slot, and `popped` lists the values that `TryPop`
returned, in order. No step reads these two fields. -/

namespace Sqc
open Concurrency

namespace MpscRithmicQueue

/-- Bound of the spin loop in `TryPush`. -/
def kMaxSpin : Nat := 10000

structure Slot (T : Type*) where
  sequence : Nat
  data : T
deriving DecidableEq

/-- Where a producer thread stands: outside a push, or before the named atomic operation of the
push that reserved `pos`. -/
inductive Producer (T : Type*) where
  | idle
  /-- `TryPush`: the load of the fast path. -/
  | fastLoad (event : T) (pos : Nat)
  /-- `TryPush`: the load of the spin loop, after `spin` failed rounds. -/
  | spinLoad (event : T) (pos spin : Nat)
  /-- `Push`: the load of its unbounded loop. -/
  | pushLoad (event : T) (pos : Nat)
  /-- `slot.data = event`. -/
  | write (event : T) (pos : Nat)
  /-- `slot.sequence.store(pos + 1)`, then `return true`. -/
  | publish (event : T) (pos : Nat)
  /-- The spin budget is exhausted: `slot.data = T{}`. -/
  | dropWrite (pos : Nat)
  /-- `slot.sequence.store(pos + 1)` of the sentinel. -/
  | dropPublish (pos : Nat)
  /-- `dropped_count_.fetch_add(1)`, then `return false`. -/
  | dropCount
deriving DecidableEq

/-- Where the consumer stands in `TryPop`. -/
inductive Consumer (T : Type*) where
  | idle
  | loadSequence (pos : Nat)
  | readData (pos : Nat)
  | storeReadPos (pos : Nat) (out : T)
  | storeSequence (pos : Nat) (out : T)
deriving DecidableEq

/-- How the push that reserved a position ended. -/
inductive Outcome (T : Type*) where
  | accepted (event : T)
  | dropped
deriving DecidableEq

/-- What the consumer is owed for a position: the event, or the sentinel `T{}`. -/
def Outcome.value {T : Type*} [Inhabited T] : Outcome T → T
  | .accepted event => event
  | .dropped => default

structure State (ι T : Type*) where
  writePos : Nat
  droppedCount : Nat
  slots : Nat → Slot T
  readPos : Nat
  producers : ι → Producer T
  consumer : Consumer T
  outcomes : Nat → Option (Outcome T)
  popped : List T

inductive Action (ι T : Type*) where
  /-- Thread `i` calls `TryPush(event)`: the `fetch_add` on `write_pos_`. -/
  | tryPush (i : ι) (event : T)
  /-- Thread `i` calls `Push(event)`: the `fetch_add` on `write_pos_`. -/
  | push (i : ι) (event : T)
  /-- The next atomic operation of the push in progress on thread `i`. -/
  | produce (i : ι)
  /-- The next atomic operation of the consumer, which calls `TryPop` in a loop. -/
  | consume

variable {ι T : Type*} [DecidableEq ι] [Inhabited T]

namespace State

variable (c : Capacity) (s : State ι T)

/-- `slots_[pos & kMask]`. -/
def slot (pos : Nat) : Slot T := s.slots (pos &&& (c.val - 1))

def setSlot (pos : Nat) (x : Slot T) : State ι T :=
  { s with slots := Function.update s.slots (pos &&& (c.val - 1)) x }

def setProducer (i : ι) (p : Producer T) : State ι T :=
  { s with producers := Function.update s.producers i p }

/-- The load of a slot's sequence by a push: whether the slot is free for `pos`. -/
def free (pos : Nat) : Bool := (s.slot c pos).sequence == pos

/-- `slot.data = x`. -/
def writeData (pos : Nat) (x : T) : State ι T := s.setSlot c pos { s.slot c pos with data := x }

/-- `slot.sequence.store(q)`. -/
def storeSeq (pos q : Nat) : State ι T := s.setSlot c pos { s.slot c pos with sequence := q }

def record (pos : Nat) (o : Outcome T) : State ι T :=
  { s with outcomes := Function.update s.outcomes pos (some o) }

/-- `write_pos_.fetch_add(1)`: the thread owns the old value. -/
def reserve (i : ι) (p : Nat → Producer T) : State ι T :=
  { s with writePos := s.writePos + 1, producers := Function.update s.producers i (p s.writePos) }

end State

/-- The next atomic operation of the push in progress on thread `i`. -/
def produce (c : Capacity) (s : State ι T) (i : ι) : Option (State ι T) :=
  match s.producers i with
  | .idle => none
  | .fastLoad event pos =>
    if s.free c pos then some (s.setProducer i (.write event pos))
    else some (s.setProducer i (.spinLoad event pos 0))
  | .spinLoad event pos spin =>
    if s.free c pos then some (s.setProducer i (.write event pos))
    else if spin + 1 > kMaxSpin then some (s.setProducer i (.dropWrite pos))
    else some (s.setProducer i (.spinLoad event pos (spin + 1)))
  | .pushLoad event pos =>
    if s.free c pos then some (s.setProducer i (.write event pos)) else some s
  | .write event pos => some ((s.writeData c pos event).setProducer i (.publish event pos))
  | .publish event pos =>
    some (((s.storeSeq c pos (pos + 1)).record pos (.accepted event)).setProducer i .idle)
  | .dropWrite pos => some ((s.writeData c pos default).setProducer i (.dropPublish pos))
  | .dropPublish pos =>
    some (((s.storeSeq c pos (pos + 1)).record pos .dropped).setProducer i .dropCount)
  | .dropCount => some ({ s with droppedCount := s.droppedCount + 1 }.setProducer i .idle)

/-- The next atomic operation of `TryPop`. A call that finds its slot unpublished returns false
and leaves no trace; a call that returns true appends to `popped`. -/
def consume (c : Capacity) (s : State ι T) : State ι T :=
  match s.consumer with
  | .idle => { s with consumer := .loadSequence s.readPos }
  | .loadSequence pos =>
    if (s.slot c pos).sequence ≠ pos + 1 then { s with consumer := .idle }
    else { s with consumer := .readData pos }
  | .readData pos => { s with consumer := .storeReadPos pos (s.slot c pos).data }
  | .storeReadPos pos out => { s with readPos := pos + 1, consumer := .storeSequence pos out }
  | .storeSequence pos out =>
    { s.storeSeq c pos (pos + c.val) with consumer := .idle, popped := s.popped ++ [out] }

def step (c : Capacity) (s : State ι T) : Action ι T → Option (State ι T)
  | .tryPush i event =>
    match s.producers i with
    | .idle => some (s.reserve i (.fastLoad event))
    | _ => none
  | .push i event =>
    match s.producers i with
    | .idle => some (s.reserve i (.pushLoad event))
    | _ => none
  | .produce i => produce c s i
  | .consume => some (consume c s)

/-- The constructor: slot `i` starts with sequence `i`. -/
def init : State ι T where
  writePos := 0
  droppedCount := 0
  slots i := ⟨i, default⟩
  readPos := 0
  producers _ := .idle
  consumer := .idle
  outcomes _ := none
  popped := []

def machine (ι T : Type*) [DecidableEq ι] [Inhabited T] (c : Capacity) :
    Machine (State ι T) (Action ι T) where
  init := init
  step := step c

/-- The consumer running alone for `n` atomic operations. -/
def consumerRun (n : Nat) : List (Action ι T) := List.replicate n .consume

end MpscRithmicQueue

end Sqc
