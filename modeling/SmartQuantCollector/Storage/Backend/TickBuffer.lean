import SmartQuantCollector.Storage.Backend.DolphinDBLedger

/-! # The tick double buffer of `DolphinDBBackend`

Calls of `InsertTick`, in the order in which they get `buffer_mtx_`, followed by `FlushAndClose`.
The buffer that is not active stays empty, so that the batches, in the order they are taken out
under the lock, join to the inserted ticks (`flushed_flatten`). `buffer_of_exec` shows that the
buffer of the interleaved model is the one of its insertions. -/

namespace Sqc.DolphinDBBackend
open Concurrency

/-- A call of `InsertTick`, with its two readings of the clock. -/
structure TickCall where
  item : Item
  nowNs : UInt64
  flushNs : UInt64

/-- The buffers and the batches that were handed to `FlushBuffer`. -/
structure Accumulator where
  buffer : TickBuffer := {}
  flushed : List (List Item) := []

variable {cfg : Config} {acc : Accumulator} {buf : TickBuffer} {c : TickCall}

namespace TickBuffer

def inactive (buf : TickBuffer) : List Item := if buf.activeB then buf.a else buf.b

/-- The call finds the buffer full or too long in use. -/
def Due (cfg : Config) (buf : TickBuffer) (c : TickCall) : Prop :=
  cfg.bufferSize.toNat ≤ buf.active.length + 1 ∨ c.nowNs - buf.lastFlushNs > cfg.flushIntervalNs

@[simp] theorem active_setActive (buf : TickBuffer) (items : List Item) :
    (buf.setActive items).active = items := by
  cases h : buf.activeB <;> simp [setActive, active, h]

@[simp] theorem inactive_setActive (buf : TickBuffer) (items : List Item) :
    (buf.setActive items).inactive = buf.inactive := by
  cases h : buf.activeB <;> simp [setActive, inactive, h]

/-- The buffers behind the flip of `active_buffer_`. -/
theorem swap (buf : TickBuffer) (flushNs : UInt64) :
    { buf.setActive [] with activeB := !buf.activeB, lastFlushNs := flushNs }.active =
      buf.inactive ∧
    { buf.setActive [] with activeB := !buf.activeB, lastFlushNs := flushNs }.inactive = [] := by
  cases h : buf.activeB <;> simp [setActive, active, inactive, h]

/-- The two buffers in the order in which `FlushAndClose` takes them out. -/
theorem append_of_inactive {buf : TickBuffer} (h : buf.inactive = []) :
    buf.a ++ buf.b = buf.active := by
  unfold inactive at h
  unfold active
  split at h
  next hb => rw [if_pos hb, h, List.nil_append]
  next hb => rw [if_neg hb, h, List.append_nil]

/-- What the call does under the lock. -/
theorem push_cases (cfg : Config) (buf : TickBuffer) (c : TickCall) :
    (buf.Due cfg c ∧ buf.push cfg c.item c.nowNs c.flushNs =
      ({ buf.setActive [] with activeB := !buf.activeB, lastFlushNs := c.flushNs },
        buf.active ++ [c.item])) ∨
    (¬ buf.Due cfg c ∧ buf.push cfg c.item c.nowNs c.flushNs =
      (buf.setActive (buf.active ++ [c.item]), [])) := by
  unfold push Due
  rcases Nat.lt_or_ge (buf.active.length + 1) cfg.bufferSize.toNat with hsize | hsize
  · rcases Decidable.em (c.nowNs - buf.lastFlushNs > cfg.flushIntervalNs) with htime | htime
    · exact .inl ⟨.inr htime, by simp [htime]⟩
    · refine .inr ⟨?_, by simp [htime, Nat.not_le.mpr hsize]⟩
      rintro (h | h)
      · exact absurd h (Nat.not_le.mpr hsize)
      · exact htime h
  · exact .inl ⟨.inl hsize, by simp [hsize]⟩

end TickBuffer

namespace Accumulator

/-- A batch that is empty is not handed on. -/
def hand (acc : Accumulator) (batch : List Item) : List (List Item) :=
  if batch.isEmpty then acc.flushed else acc.flushed ++ [batch]

def insertTick (cfg : Config) (acc : Accumulator) (c : TickCall) : Accumulator :=
  let (buffer, toFlush) := acc.buffer.push cfg c.item c.nowNs c.flushNs
  ⟨buffer, acc.hand toFlush⟩

/-- `FlushAndClose` takes out both buffers. -/
def flushAndClose (acc : Accumulator) : Accumulator :=
  let drained : TickBuffer := { acc.buffer with a := [], b := [] }
  let acc := { acc with flushed := acc.hand acc.buffer.a }
  ⟨drained, acc.hand acc.buffer.b⟩

def insertTicks (cfg : Config) (calls : List TickCall) : Accumulator :=
  calls.foldl (insertTick cfg) {}

theorem flatten_hand (acc : Accumulator) (batch : List Item) :
    (acc.hand batch).flatten = acc.flushed.flatten ++ batch := by
  unfold hand
  split
  next h => rw [List.isEmpty_iff.mp h, List.append_nil]
  next => simp

/-- Every tick so far was handed on or is in the active buffer. -/
structure Keeps (acc : Accumulator) (items : List Item) : Prop where
  inactive : acc.buffer.inactive = []
  items : acc.flushed.flatten ++ acc.buffer.active = items

theorem Keeps.insertTick {items : List Item} (h : Keeps acc items) (c : TickCall) :
    Keeps (acc.insertTick cfg c) (items ++ [c.item]) := by
  unfold Accumulator.insertTick
  rcases acc.buffer.push_cases cfg c with ⟨-, hpush⟩ | ⟨-, hpush⟩
  · obtain ⟨hactive, hinactive⟩ := acc.buffer.swap c.flushNs
    rw [hpush]
    refine ⟨hinactive, ?_⟩
    rw [hactive, h.inactive, flatten_hand, List.append_nil, ← List.append_assoc, h.items]
  · rw [hpush]
    refine ⟨(TickBuffer.inactive_setActive ..).trans h.inactive, ?_⟩
    rw [TickBuffer.active_setActive, flatten_hand, List.append_nil, ← List.append_assoc, h.items]

theorem insertTicks_concat (cfg : Config) (calls : List TickCall) (c : TickCall) :
    insertTicks cfg (calls ++ [c]) = (insertTicks cfg calls).insertTick cfg c := by
  rw [insertTicks, insertTicks, List.foldl_append]
  rfl

theorem Keeps.insertTicks (cfg : Config) (calls : List TickCall) :
    Keeps (Accumulator.insertTicks cfg calls) (calls.map TickCall.item) := by
  induction calls using List.reverseRecOn with
  | nil => exact ⟨rfl, rfl⟩
  | append_singleton calls c ih =>
    rw [insertTicks_concat, List.map_append]
    exact ih.insertTick c

/-- `FlushAndClose` hands on what is left. -/
theorem Keeps.flushAndClose {items : List Item} (h : Keeps acc items) :
    acc.flushAndClose.flushed.flatten = items := by
  unfold Accumulator.flushAndClose
  rw [flatten_hand, flatten_hand, List.append_assoc, TickBuffer.append_of_inactive h.inactive,
    h.items]

/-- After any calls the buffer that is not active is empty; a further call hands on a batch only if
it fills the buffer or finds its time elapsed, and then all of the buffer up to its own tick; and
with `FlushAndClose` the batches are the inserted ticks, each once and in order. -/
theorem flushed_flatten (cfg : Config) (calls : List TickCall) :
    (insertTicks cfg calls).buffer.inactive = [] ∧
    (∀ c, (insertTicks cfg (calls ++ [c])).flushed = (insertTicks cfg calls).flushed ∨
      (insertTicks cfg calls).buffer.Due cfg c ∧
        (insertTicks cfg (calls ++ [c])).flushed = (insertTicks cfg calls).flushed ++
          [(insertTicks cfg calls).buffer.active ++ [c.item]]) ∧
    (insertTicks cfg calls).flushAndClose.flushed.flatten = calls.map TickCall.item := by
  have hkeeps := Keeps.insertTicks cfg calls
  refine ⟨hkeeps.inactive, fun c => ?_, hkeeps.flushAndClose⟩
  rw [insertTicks_concat, insertTick]
  rcases (insertTicks cfg calls).buffer.push_cases cfg c with ⟨hdue, hpush⟩ | ⟨-, hpush⟩
  · rw [hpush]
    refine .inr ⟨hdue, if_neg ?_⟩
    simp
  · rw [hpush]
    exact .inl rfl

end Accumulator

/-! ## The buffer of the interleaved model -/

section Interleaved

variable {ι : Type} {s t : State ι} {i : ι}

/-- The steps other than an insertion or one of `FlushAndClose`. -/
structure SameTicks (s t : State ι) : Prop where
  buffer : t.buffer = s.buffer
  closing : t.closing = s.closing
  handed : t.handed = s.handed

/-- While the backend is not being closed, the buffer is the one of the ticks handed to it. -/
def Buffered (cfg : Config) (s : State ι) : Prop :=
  s.closing = .running → ∃ calls, s.buffer = (Accumulator.insertTicks cfg calls).buffer ∧
    calls.map TickCall.item = s.handed.filter (·.record.kind = .tick)

theorem Buffered.of_same (h : Buffered cfg s) (hsame : SameTicks s t) : Buffered cfg t := by
  intro hclosing
  rw [hsame.closing] at hclosing
  rw [hsame.buffer, hsame.handed]
  exact h hclosing

variable [DecidableEq ι]

theorem RunStep.sameTicks {answer : Answer} (h : RunStep cfg s i answer t) : SameTicks s t := by
  cases h with
  | connected _ => cases answer.reconnect <;> exact ⟨rfl, rfl, rfl⟩
  | _ => exact ⟨rfl, rfl, rfl⟩

theorem Buffered.insert {r : Record} {nowNs flushNs : UInt64} (h : Buffered cfg s)
    (hstep : DolphinDBBackend.insert cfg s i r nowNs flushNs = some t) : Buffered cfg t := by
  intro hclosing
  unfold DolphinDBBackend.insert at hstep
  simp only [Option.ite_none_right_eq_some] at hstep
  obtain ⟨-, hstep⟩ := hstep
  cases r with
  | tick tick =>
    cases hstep
    obtain ⟨calls, hbuffer, hitems⟩ := h hclosing
    refine ⟨calls ++ [⟨⟨s.next, .tick tick⟩, nowNs, flushNs⟩], ?_, ?_⟩
    · rw [Accumulator.insertTicks_concat, Accumulator.insertTick, ← hbuffer]
      rfl
    · simp [State.setThread, hitems, Record.kind]
  | orderbook event localTs =>
    cases hstep
    obtain ⟨calls, hbuffer, hitems⟩ := h hclosing
    exact ⟨calls, hbuffer, by simp [State.setThread, hitems, Record.kind]⟩
  | bookTicker event =>
    cases hstep
    obtain ⟨calls, hbuffer, hitems⟩ := h hclosing
    exact ⟨calls, hbuffer, by simp [State.setThread, hitems, Record.kind]⟩

variable [Fintype ι]

theorem Buffered.close (hstep : DolphinDBBackend.close cfg s i = some t) : Buffered cfg t := by
  intro hclosing
  obtain ⟨-, hstep⟩ := closeStep hstep
  cases hstep <;> cases hclosing

theorem buffer_of_exec {connected : Bool} {as : List (Action ι)}
    (h : (machine cfg ι connected).exec (.init ι connected) as = some s) : Buffered cfg s := by
  have hstep : ∀ (s : State ι) (a : Action ι) (t : State ι), Buffered cfg s → True →
      (machine cfg ι connected).step s a = some t → Buffered cfg t := by
    intro s a t hs _ ht
    cases a with
    | insert i r nowNs flushNs => exact hs.insert ht
    | run i answer => exact hs.of_same (runStep ht).sameTicks
    | close i => exact Buffered.close ht
    | send kind n =>
      obtain ⟨_, _, rfl⟩ := Option.map_eq_some_iff.mp ht
      exact hs.of_same ⟨rfl, rfl, rfl⟩
    | failSend kind n =>
      obtain ⟨_, _, rfl⟩ := Option.map_eq_some_iff.mp ht
      exact hs.of_same ⟨rfl, rfl, rfl⟩
  exact Machine.exec_invariant _ hstep (fun _ => ⟨[], rfl, rfl⟩) (Machine.along_true _) h

end Interleaved

end Sqc.DolphinDBBackend
