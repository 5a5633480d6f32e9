import SmartQuantCollector.Lib.RingQueue
import SmartQuantCollector.Exchange.ExchangeAdapter

/-! # `ShardQueue` (`src/exchange/shard_queue.h`, `src/exchange/shard_queue.cpp`)

The ring of `RawMessage`s between the network thread and a parser worker. `TryPush` takes its
message by value, so every attempt inside `Push` moves the message into a parameter of its own: the
inline bytes and the metadata are copied, the heap buffer changes hands, and when the attempt finds
the ring full the parameter is destroyed together with it. The message that a later attempt stores
is `movedFrom` the one that `Push` was given.

`pushed` records the messages as they were when `Push` or `TryPush` was called, in the order in
which the calls stored them. -/

namespace Sqc
open Concurrency

/-! ## Messages -/

namespace RawMessage

def kInlineSize : Nat := 16384

end RawMessage

structure RawMessage where
  /-- `inline_`. -/
  inlineBuf : List UInt8
  /-- `heap_`: the bytes of the owned array, `none` for the null pointer. -/
  heap : Option (List UInt8)
  heapSize : Nat
  size : Nat
  channelId : UInt32
  recvTimestamp : UInt64
  symbol : Vector UInt8 32
  eventType : EventType
  /-- The adapter whose `parse` the function pointer designates. -/
  parseFn : Option ExchangeAdapter
  inlineBuf_length : inlineBuf.length = RawMessage.kInlineSize
deriving DecidableEq

namespace RawMessage

/-- `RawMessage{}`. -/
instance : Inhabited RawMessage where
  default := {
    inlineBuf := List.replicate kInlineSize 0
    heap := none
    heapSize := 0
    size := 0
    channelId := 0
    recvTimestamp := 0
    symbol := Vector.replicate 32 0
    eventType := .tick
    parseFn := none
    inlineBuf_length := List.length_replicate }

def buffer (m : RawMessage) : List UInt8 := m.heap.getD m.inlineBuf

/-- What the move constructor and the move assignment leave behind. -/
def movedFrom (m : RawMessage) : RawMessage := { m with heap := none }

theorem buffer_movedFrom (m : RawMessage) : m.movedFrom.buffer = m.inlineBuf := rfl

theorem movedFrom_of_inline {m : RawMessage} (h : m.heap = none) : m.movedFrom = m := by
  obtain ⟨_, _, _, _, _, _, _, _, _, _⟩ := m
  cases h
  rfl

/-- `allocate`, for a heap allocation that succeeds; `padding` is `kSimdjsonPadding`. -/
def allocate (m : RawMessage) (padding needed : Nat) : RawMessage :=
  if needed + padding ≤ kInlineSize then { m with heap := none, heapSize := 0 }
  else { m with heap := some (List.replicate (needed + padding) 0), heapSize := needed + padding }

/-- The bytes of `xs` with those from `offset` on replaced by `bytes`. -/
def overwrite (xs : List UInt8) (offset : Nat) (bytes : List UInt8) : List UInt8 :=
  (xs.take offset ++ bytes ++ xs.drop (offset + bytes.length)).take xs.length

theorem length_overwrite (xs : List UInt8) (offset : Nat) (bytes : List UInt8) :
    (overwrite xs offset bytes).length = xs.length := by
  simp only [overwrite, List.length_take, List.length_append, List.length_drop]
  omega

/-- `memcpy` or `memset` into `buffer() + offset`. -/
def write (m : RawMessage) (offset : Nat) (bytes : List UInt8) : RawMessage :=
  match m.heap with
  | some b => { m with heap := some (overwrite b offset bytes) }
  | none =>
    { m with
      inlineBuf := overwrite m.inlineBuf offset bytes
      inlineBuf_length := (length_overwrite _ _ _).trans m.inlineBuf_length }

/-- The message that `SymbolChannel::OnMessage` builds from received bytes, starting from the
uninitialised local `m`. -/
def ofPayload (padding : Nat) (m : RawMessage) (data : List UInt8) (channelId : UInt32)
    (recvTimestamp : UInt64) (symbol : Vector UInt8 32) (adapter : ExchangeAdapter)
    (eventType : EventType) : RawMessage :=
  { ((m.allocate padding data.length).write 0 data).write data.length
      (List.replicate padding 0) with
    size := data.length
    channelId := channelId
    recvTimestamp := recvTimestamp
    symbol := symbol
    parseFn := some adapter
    eventType := eventType }

theorem heap_write (m : RawMessage) (offset : Nat) (bytes : List UInt8) :
    (m.write offset bytes).heap = m.heap.map (overwrite · offset bytes) := by
  unfold write
  cases hm : m.heap <;> rfl

/-- A message is on the heap exactly when it does not fit the inline buffer with its padding. -/
theorem heap_ofPayload (padding : Nat) (m : RawMessage) (data : List UInt8) (channelId : UInt32)
    (recvTimestamp : UInt64) (symbol : Vector UInt8 32) (adapter : ExchangeAdapter)
    (eventType : EventType) :
    (ofPayload padding m data channelId recvTimestamp symbol adapter eventType).heap = none ↔
      data.length + padding ≤ kInlineSize := by
  show (((m.allocate padding data.length).write 0 data).write data.length _).heap = none ↔ _
  rw [heap_write, heap_write, Option.map_eq_none_iff, Option.map_eq_none_iff]
  unfold allocate
  split
  next h => exact ⟨fun _ => h, fun _ => rfl⟩
  next h => exact ⟨nofun, fun hle => absurd hle h⟩

end RawMessage

namespace ShardQueue

/-! ## The ring -/

/-- The loop of `NextPowerOf2`, for a number of rounds. -/
def nextPowerOf2Loop (n : UInt64) : Nat → UInt64 → Option UInt64
  | 0, _ => none
  | rounds + 1, p => if p < n then nextPowerOf2Loop n rounds (p <<< 1) else some p

/-- `NextPowerOf2`. From the 65th round on `p` is zero and the loop of the source never ends. -/
def nextPowerOf2 (n : UInt64) : Option UInt64 := nextPowerOf2Loop n 65 1

/-- `capacity_` is `NextPowerOf2` of the capacity asked for. -/
def ring (c : Capacity) : RingQueue RawMessage where
  capacity := c
  full w r := w - r ≥ c.word
  empty r w := r ≥ w
  residue := RawMessage.movedFrom

/-- `TryPop` compares the counters with `>=`, which is right until they wrap. -/
theorem lawful (c : Capacity) : (ring c).Lawful (· < 2 ^ 64) where
  full_iff {r w} hrw hle := by
    have hlt : w - r < 2 ^ 64 := by
      have := c.val_lt
      have : w ≤ r + c.val := hle
      omega
    show decide (c.word ≤ _) = true ↔ w = r + c.val
    rw [decide_eq_true_iff, UInt64.le_iff_toNat_le, c.word_toNat, word_sub hrw hlt]
    have : w ≤ r + c.val := hle
    omega
  empty_iff {r w} hw hrw _ := by
    show decide (UInt64.ofNat w ≤ UInt64.ofNat r) = true ↔ r = w
    rw [decide_eq_true_iff, UInt64.le_iff_toNat_le, UInt64.toNat_ofNat', UInt64.toNat_ofNat',
      Nat.mod_eq_of_lt hw, Nat.mod_eq_of_lt (by omega)]
    omega

/-! ## `Push` and `TryPush` -/

/-- Where a thread stands in `Push` or `TryPush`; `msg` is the argument of the call. -/
inductive Caller where
  | outside
  | tryPush (msg : RawMessage)
  /-- `Push`, with the present value of its parameter. -/
  | push (msg param : RawMessage)
deriving DecidableEq

structure State (ι : Type*) where
  ring : RingQueue.State ι RawMessage
  callers : ι → Caller
  pushed : List RawMessage

inductive Action (ι : Type*) where
  /-- Thread `i` calls `TryPush(msg)`. -/
  | tryPush (i : ι) (msg : RawMessage)
  /-- Thread `i` calls `Push(msg)`, which makes its first attempt. -/
  | push (i : ι) (msg : RawMessage)
  /-- The next attempt of a `Push` whose last one failed. -/
  | retry (i : ι)
  /-- The next atomic operation of the attempt in progress on thread `i`. -/
  | produce (i : ι)
  /-- The next atomic operation of the consumer, which calls `TryPop` in a loop. -/
  | consume

variable {ι : Type*} {c : Capacity} {s t : State ι}

section
variable [DecidableEq ι]

/-- `TryPush(std::move(param))` inside `Push`. -/
def attempt (s : State ι) (i : ι) (msg param : RawMessage) : Option (State ι) :=
  (RingQueue.tryPush s.ring i param).map fun r =>
    { s with ring := r, callers := Function.update s.callers i (.push msg param.movedFrom) }

/-- The operation that ends the attempt of thread `i`, or moves it on. -/
def produce (c : Capacity) (s : State ι) (i : ι) : Option (State ι) :=
  (RingQueue.produce (ring c) s.ring i).map fun r =>
    match RingQueue.pushResult (ring c) s.ring i, s.callers i with
    | some true, .tryPush msg | some true, .push msg _ =>
      { ring := r, callers := Function.update s.callers i .outside, pushed := s.pushed ++ [msg] }
    | some false, .tryPush _ =>
      { s with ring := r, callers := Function.update s.callers i .outside }
    | _, _ => { s with ring := r }

def step (c : Capacity) (s : State ι) : Action ι → Option (State ι)
  | .tryPush i msg =>
    match s.callers i with
    | .outside => (RingQueue.tryPush s.ring i msg).map fun r =>
        { s with ring := r, callers := Function.update s.callers i (.tryPush msg) }
    | _ => none
  | .push i msg =>
    match s.callers i with
    | .outside => attempt s i msg msg
    | _ => none
  | .retry i =>
    match s.callers i with
    | .push msg param => attempt s i msg param
    | _ => none
  | .produce i => produce c s i
  | .consume => some { s with ring := RingQueue.consume (ring c) s.ring }

end

def init (ι : Type*) : State ι where
  ring := RingQueue.init ι default
  callers _ := .outside
  pushed := []

def machine (ι : Type*) [DecidableEq ι] (c : Capacity) : Machine (State ι) (Action ι) where
  init := init ι
  step := step c

def consumerRun (n : Nat) : List (Action ι) := List.replicate n .consume

end ShardQueue

end Sqc
