import Mathlib.Data.List.Infix
import SmartQuantCollector.Pubsub.MessageSerializer
import SmartQuantCollector.Pubsub.ZmqBufferPool

/-! # Payloads in flight (`src/pubsub/pub_worker.cpp`, `SendTyped`)

ZMQ does not copy a payload. It reads the buffer of the pool at any time after `send` has taken the
message, for each connection anew, until it calls `Release`; the pub thread goes on serializing into
other buffers meanwhile. Here the pool is put together with the memory of its slots: the pub thread
writes single bytes, in whatever order `memcpy` does this, and ZMQ reads single bytes.

A slot has one message, so nobody writes to a buffer that ZMQ reads. What a connection has been sent
of a payload is the beginning of the serialized event, and a subscriber that has all of it gets the
event back (`payloads_intact`). The failure paths lose no buffer: one that is neither with ZMQ nor
with the call in progress is free. -/

namespace Sqc
open Concurrency ByteReader

namespace PayloadBuffers
open ZmqBufferPool (kPoolSize)

/-- `ZmqBufferPool::kBufferSize` -/
def kBufferSize : Nat := kMaxPayloadSize

/-- An event that `SendTyped` is called with, and the compiler's bytes of the caller's copy. -/
structure Frame where
  kind : EventKind
  event : kind.Event
  pads : Pads

def Frame.payload (f : Frame) : List UInt8 := serialize f.kind f.event f.pads

abbrev Buffer := Fin kBufferSize → UInt8

/-- Where the pub thread stands in `SendTyped`. The message is number `i`. -/
inductive Place where
  | outside
  | acquiring (data : Frame)
  /-- In `Serializer::serialize`, with the bytes `rest` still to be written. -/
  | serializing (i : Nat) (data : Frame) (slot : Fin kPoolSize) (rest : List Nat)
  | sendTopic (i : Nat)
  | sendPayload (i : Nat)
  /-- A `send` has failed, and the destructor of `payload_msg` is next. -/
  | dropped (i : Nat)
  | releasing (i : Nat)

/-- The message that the call in progress has a buffer for. -/
def Place.message : Place → Option Nat
  | .outside | .acquiring _ => none
  | .serializing i .. | .sendTopic i | .sendPayload i | .dropped i | .releasing i => some i

/-- The bytes that the call in progress still has to write. -/
def Place.rest : Place → List Nat
  | .serializing _ _ _ rest => rest
  | _ => []

/-- The event of the call in progress, when it has no buffer yet. -/
def Place.waiting : Place → List Frame
  | .acquiring data => [data]
  | _ => []

structure State where
  pool : ZmqBufferPool.State
  /-- `pool_[i].data` -/
  data : Fin kPoolSize → Buffer
  place : Place := .outside
  /-- The events that the messages were made from. -/
  frames : List Frame := []
  /-- The messages that `pub_socket_.send` has taken. -/
  queued : Nat → Bool := fun _ => false
  /-- What ZMQ has read of a message for a connection. -/
  wire : Nat → Nat → List UInt8 := fun _ _ => []

inductive Action where
  /-- `SendTyped` has found the topic of `data` and calls `Acquire`. -/
  | sendTyped (data : Frame)
  /-- The next operation of this `Acquire`. -/
  | acquire
  /-- `serialize` writes byte `j`. -/
  | copy (j : Nat)
  /-- `serialize` is done, and the two messages are built. -/
  | build
  /-- What `pub_socket_.send` says. -/
  | answer (ok : Bool)
  /-- The next operation of the destructor of `payload_msg`. -/
  | destroy
  /-- ZMQ reads the next byte of message `i` for connection `c`. -/
  | transmit (i c : Nat)
  /-- ZMQ calls `Release` for message `i`. -/
  | release (i : Nat)
  /-- The store of this `Release`. -/
  | store (i : Nat)

def Action.frame : Action → Option Frame
  | .sendTyped data => some data
  | _ => none

variable {s t : State} {next : UInt64} {memory : Fin kPoolSize → Buffer} {as : List Action}

def sendTyped (s : State) (data : Frame) : Option State :=
  match s.place with
  | .outside =>
    (ZmqBufferPool.step s.pool .acquire).map fun pool =>
      { s with pool := pool, place := .acquiring data }
  | _ => none

/-- `Acquire` has returned `slot`. -/
def State.obtain (s : State) (data : Frame) (slot : Fin kPoolSize) : State :=
  { s with
    frames := s.frames ++ [data]
    place := .serializing s.frames.length data slot (List.range data.payload.length) }

def acquire (s : State) : Option State :=
  match s.place with
  | .acquiring data =>
    (ZmqBufferPool.step s.pool .advance).map fun pool =>
      match pool.acquiring with
      | .returned (some slot) => { s with pool := pool }.obtain data slot
      | .returned none => { s with pool := pool, place := .outside }
      | _ => { s with pool := pool }
  | _ => none

/-- `slot->data[j] = b` -/
def State.write (s : State) (slot : Fin kPoolSize) (j : Fin kBufferSize) (b : UInt8) : State :=
  { s with data := Function.update s.data slot (Function.update (s.data slot) j b) }

def copy (s : State) (j : Nat) : Option State :=
  match s.place with
  | .serializing i data slot rest =>
    match data.payload[j]? with
    | some b =>
      if h : j < kBufferSize then
        if j ∈ rest then
          some { s.write slot ⟨j, h⟩ b with
            place := .serializing i data slot (rest.filter (· ≠ j)) }
        else none
      else none
    | none => none
  | _ => none

def build (s : State) : Option State :=
  match s.place with
  | .serializing i _ _ [] => some { s with place := .sendTopic i }
  | _ => none

def answer (s : State) (ok : Bool) : Option State :=
  match s.place, ok with
  | .sendTopic i, true => some { s with place := .sendPayload i }
  | .sendPayload i, true =>
    some { s with queued := Function.update s.queued i true, place := .outside }
  | .sendTopic i, false | .sendPayload i, false => some { s with place := .dropped i }
  | _, _ => none

def destroy (s : State) : Option State :=
  match s.place with
  | .dropped i =>
    (ZmqBufferPool.step s.pool (.release i)).map fun pool =>
      { s with pool := pool, place := .releasing i }
  | .releasing i =>
    (ZmqBufferPool.step s.pool (.store i)).map fun pool =>
      { s with pool := pool, place := .outside }
  | _ => none

def State.read (s : State) (i c : Nat) (b : UInt8) : State :=
  { s with
    wire := Function.update s.wire i (Function.update (s.wire i) c (s.wire i c ++ [b])) }

def transmit (s : State) (i c : Nat) : Option State :=
  match s.pool.messages[i]?, s.frames[i]? with
  | some ⟨slot, .held⟩, some f =>
    if h : (s.wire i c).length < kBufferSize then
      if s.queued i ∧ (s.wire i c).length < wireSize f.kind then
        some (s.read i c (s.data slot ⟨(s.wire i c).length, h⟩))
      else none
    else none
  | _, _ => none

/-- An operation of ZMQ on the pool, for a message that it has. -/
def ofZmq (s : State) (i : Nat) (a : ZmqBufferPool.Action) : Option State :=
  if s.queued i then (ZmqBufferPool.step s.pool a).map fun pool => { s with pool := pool }
  else none

def step (s : State) : Action → Option State
  | .sendTyped data => sendTyped s data
  | .acquire => acquire s
  | .copy j => copy s j
  | .build => build s
  | .answer ok => answer s ok
  | .destroy => destroy s
  | .transmit i c => transmit s i c
  | .release i => ofZmq s i (.release i)
  | .store i => ofZmq s i (.store i)

/-- A pool with anything in its memory. -/
def machine (next : UInt64) (memory : Fin kPoolSize → Buffer) : Machine State Action where
  init := { pool := { next := next }, data := memory }
  step := step

/-- What a step does. -/
inductive Effect (s : State) : Action → State → Prop where
  | sends {data pool} (place : s.place = .outside)
      (pool_step : ZmqBufferPool.step s.pool .acquire = some pool) :
      Effect s (.sendTyped data) { s with pool := pool, place := .acquiring data }
  | probes {data pool} (place : s.place = .acquiring data)
      (pool_step : ZmqBufferPool.step s.pool .advance = some pool)
      (messages : pool.messages = s.pool.messages) :
      Effect s .acquire { s with pool := pool }
  | exhausted {data pool} (place : s.place = .acquiring data)
      (pool_step : ZmqBufferPool.step s.pool .advance = some pool)
      (messages : pool.messages = s.pool.messages) :
      Effect s .acquire { s with pool := pool, place := .outside }
  | obtains {data slot} (place : s.place = .acquiring data)
      (pool_step : ZmqBufferPool.step s.pool .advance = some (s.pool.take slot)) :
      Effect s .acquire ({ s with pool := s.pool.take slot }.obtain data slot)
  | copies {i data slot rest j b} (place : s.place = .serializing i data slot rest)
      (byte : data.payload[j.val]? = some b) :
      Effect s (.copy j.val)
        { s.write slot j b with place := .serializing i data slot (rest.filter (· ≠ j.val)) }
  | builds {i data slot} (place : s.place = .serializing i data slot []) :
      Effect s .build { s with place := .sendTopic i }
  | topicTaken {i} (place : s.place = .sendTopic i) :
      Effect s (.answer true) { s with place := .sendPayload i }
  | payloadTaken {i} (place : s.place = .sendPayload i) :
      Effect s (.answer true)
        { s with queued := Function.update s.queued i true, place := .outside }
  | refused {i} (place : s.place = .sendTopic i ∨ s.place = .sendPayload i) :
      Effect s (.answer false) { s with place := .dropped i }
  | destroys {i pool} (place : s.place = .dropped i)
      (pool_step : ZmqBufferPool.step s.pool (.release i) = some pool) :
      Effect s .destroy { s with pool := pool, place := .releasing i }
  | frees {i pool} (place : s.place = .releasing i)
      (pool_step : ZmqBufferPool.step s.pool (.store i) = some pool) :
      Effect s .destroy { s with pool := pool, place := .outside }
  | transmits {i c f slot} (queued : s.queued i = true) (frame : s.frames[i]? = some f)
      (holds : s.pool.holds i = some slot) (h : (s.wire i c).length < kBufferSize)
      (length : (s.wire i c).length < f.payload.length) :
      Effect s (.transmit i c) (s.read i c (s.data slot ⟨(s.wire i c).length, h⟩))
  | releases {i pool} (queued : s.queued i = true)
      (pool_step : ZmqBufferPool.step s.pool (.release i) = some pool) :
      Effect s (.release i) { s with pool := pool }
  | stores {i pool} (queued : s.queued i = true)
      (pool_step : ZmqBufferPool.step s.pool (.store i) = some pool) :
      Effect s (.store i) { s with pool := pool }

theorem advance_cases {pool pool' : ZmqBufferPool.State}
    (h : ZmqBufferPool.step pool .advance = some pool') :
    (∃ slot, pool' = pool.take slot) ∨
      pool'.messages = pool.messages ∧ ∀ slot, pool'.acquiring ≠ .returned (some slot) := by
  cases ZmqBufferPool.effect_of_step h with
  | fetches => exact .inr ⟨rfl, fun slot heq => by cases heq⟩
  | skips =>
    refine .inr ⟨rfl, fun slot heq => ?_⟩
    simp only [ZmqBufferPool.loop] at heq
    split at heq <;> cases heq
  | takes => exact .inl ⟨_, rfl⟩

theorem effect_of_acquire (h : acquire s = some t) : Effect s .acquire t := by
  unfold acquire at h
  split at h
  next data hplace =>
    obtain ⟨pool, hpool, rfl⟩ := Option.map_eq_some_iff.mp h
    rcases advance_cases hpool with ⟨slot, rfl⟩ | ⟨hmessages, hslot⟩
    · exact .obtains hplace hpool
    · split
      next slot hret => exact absurd hret (hslot slot)
      next => exact .exhausted hplace hpool hmessages
      next => exact .probes hplace hpool hmessages
  next => cases h

theorem effect_of_copy {j : Nat} (h : copy s j = some t) : Effect s (.copy j) t := by
  unfold copy at h
  split at h
  next hplace =>
    split at h
    next hbyte =>
      split at h
      next hj =>
        split at h
        next => cases h; exact .copies (j := ⟨j, hj⟩) hplace hbyte
        next => cases h
      next => cases h
    next => cases h
  next => cases h

theorem effect_of_transmit {i c : Nat} (h : transmit s i c = some t) :
    Effect s (.transmit i c) t := by
  unfold transmit at h
  split at h
  next slot f hmessage hframe =>
    split at h
    next hk =>
      split at h
      next hsent =>
        cases h
        refine .transmits hsent.1 hframe (ZmqBufferPool.holds_eq_some hmessage) hk ?_
        rw [Frame.payload, length_serialize]
        exact hsent.2
      next => cases h
    next => cases h
  next => cases h

theorem effect_of_step {a : Action} (h : step s a = some t) : Effect s a t := by
  cases a with
  | sendTyped data =>
    simp only [step, sendTyped] at h
    split at h
    next hplace =>
      obtain ⟨pool, hpool, rfl⟩ := Option.map_eq_some_iff.mp h
      exact .sends hplace hpool
    next => cases h
  | acquire => exact effect_of_acquire h
  | copy j => exact effect_of_copy h
  | build =>
    simp only [step, build] at h
    split at h
    next hplace => cases h; exact .builds hplace
    next => cases h
  | answer ok =>
    simp only [step, answer] at h
    split at h
    next hplace => cases h; exact .topicTaken hplace
    next hplace => cases h; exact .payloadTaken hplace
    next hplace => cases h; exact .refused (.inl hplace)
    next hplace => cases h; exact .refused (.inr hplace)
    next => cases h
  | destroy =>
    simp only [step, destroy] at h
    split at h
    next hplace =>
      obtain ⟨pool, hpool, rfl⟩ := Option.map_eq_some_iff.mp h
      exact .destroys hplace hpool
    next hplace =>
      obtain ⟨pool, hpool, rfl⟩ := Option.map_eq_some_iff.mp h
      exact .frees hplace hpool
    next => cases h
  | transmit i c => exact effect_of_transmit h
  | release i =>
    simp only [step, ofZmq] at h
    split at h
    next hqueued =>
      obtain ⟨pool, hpool, rfl⟩ := Option.map_eq_some_iff.mp h
      exact .releases hqueued hpool
    next => cases h
  | store i =>
    simp only [step, ofZmq] at h
    split at h
    next hqueued =>
      obtain ⟨pool, hpool, rfl⟩ := Option.map_eq_some_iff.mp h
      exact .stores hqueued hpool
    next => cases h

/-! ## The buffers of the messages -/

/-- The buffer begins with `bytes`, but for those at the places `rest`. -/
def Written (buffer : Buffer) (bytes : List UInt8) (rest : List Nat) : Prop :=
  ∀ j b, bytes[j.val]? = some b → j.val ∉ rest → buffer j = b

/-- The bytes of message `i` that are still to be written. -/
def State.unwritten (s : State) (i : Nat) : List Nat :=
  if s.place.message = some i then s.place.rest else []

theorem Written.mono {buffer : Buffer} {bytes : List UInt8} (h : Written buffer bytes [])
    (rest : List Nat) : Written buffer bytes rest :=
  fun j b hb _ => h j b hb List.not_mem_nil

theorem Written.update {buffer : Buffer} {bytes : List UInt8} {rest : List Nat}
    (h : Written buffer bytes rest) {j : Fin kBufferSize} {b : UInt8}
    (hb : bytes[j.val]? = some b) :
    Written (Function.update buffer j b) bytes (rest.filter (· ≠ j.val)) := by
  intro k b' hb' hk
  rw [Function.update_apply]
  split
  next heq =>
    subst heq
    exact Option.some.inj (hb.symm.trans hb')
  next hne =>
    refine h k b' hb' fun hmem => hk (List.mem_filter.mpr ⟨hmem, ?_⟩)
    exact decide_eq_true fun heq => hne (Fin.ext heq)

theorem unwritten_of_rest (h : s.place.rest = []) (i : Nat) : s.unwritten i = [] := by
  rw [State.unwritten, h, ite_self]

theorem unwritten_message {i : Nat} (h : s.place.message = some i) :
    s.unwritten i = s.place.rest := if_pos h

/-- A step of the pool that only gives slots back. -/
structure Gives (pool pool' : ZmqBufferPool.State) : Prop where
  exclusive : pool.Exclusive → pool'.Exclusive
  length : pool'.messages.length = pool.messages.length
  holds : ∀ i slot, pool'.holds i = some slot → pool.holds i = some slot

namespace Gives

variable {pool pool' : ZmqBufferPool.State} {i : Nat}

theorem refl (pool : ZmqBufferPool.State) : Gives pool pool := ⟨id, rfl, fun _ _ => id⟩

theorem of_messages {a : ZmqBufferPool.Action} (h : ZmqBufferPool.step pool a = some pool')
    (hmessages : pool'.messages = pool.messages) : Gives pool pool' where
  exclusive hexcl := hexcl.step h
  length := congrArg List.length hmessages
  holds i slot hi := by
    rw [ZmqBufferPool.State.holds, hmessages] at hi
    exact hi

theorem holds_release (h : ZmqBufferPool.step pool (.release i) = some pool') :
    pool'.holds = pool.holds := by
  cases ZmqBufferPool.effect_of_step h with
  | releases hi =>
    rw [ZmqBufferPool.holds_setPhase hi, Function.update_eq_self_iff,
      ZmqBufferPool.holds_eq_some hi]
    rfl

theorem holds_store (h : ZmqBufferPool.step pool (.store i) = some pool') :
    pool'.holds = Function.update pool.holds i none := by
  cases ZmqBufferPool.effect_of_step h with
  | stores hi => exact ZmqBufferPool.holds_setPhase hi

theorem release (h : ZmqBufferPool.step pool (.release i) = some pool') : Gives pool pool' where
  exclusive hexcl := hexcl.step h
  length := by
    cases ZmqBufferPool.effect_of_step h with
    | releases => exact List.length_set
  holds j slot hj := holds_release h ▸ hj

theorem store (h : ZmqBufferPool.step pool (.store i) = some pool') : Gives pool pool' where
  exclusive hexcl := hexcl.step h
  length := by
    cases ZmqBufferPool.effect_of_step h with
    | stores => exact List.length_set
  holds j slot hj := by
    rw [holds_store h, Function.update_apply] at hj
    split at hj
    next => cases hj
    next => exact hj

end Gives

structure Inv (s : State) : Prop where
  exclusive : s.pool.Exclusive
  length : s.frames.length = s.pool.messages.length
  /-- The message of the call in progress is not with ZMQ. -/
  current : ∀ i, s.place.message = some i → s.queued i = false ∧ i < s.frames.length
  serializing : ∀ i data slot rest, s.place = .serializing i data slot rest →
    s.frames[i]? = some data ∧ s.pool.holds i = some slot ∧ ∀ j ∈ rest, j < data.payload.length
  written : ∀ i f slot, s.frames[i]? = some f → s.pool.holds i = some slot →
    Written (s.data slot) f.payload (s.unwritten i)
  /-- What is sent of a payload is its beginning. -/
  wire : ∀ i c f, s.frames[i]? = some f → s.wire i c <+: f.payload
  silent : ∀ i c, s.queued i = false → s.wire i c = []
  owned : ∀ i slot, s.pool.holds i = some slot → s.queued i = true ∨ s.place.message = some i
  queued_lt : ∀ i, s.queued i = true → i < s.frames.length

namespace Inv

theorem init (next : UInt64) (memory : Fin kPoolSize → Buffer) :
    Inv (machine next memory).init where
  exclusive := .init next
  length := rfl
  current i h := by cases h
  serializing i data slot rest h := by cases h
  written i f slot h := by cases h
  wire i c f h := by cases h
  silent i c _ := rfl
  owned i slot h := by cases h
  queued_lt i h := by cases h

/-- The pub thread goes on to a place where it writes nothing. -/
theorem move (h : Inv s) {pool : ZmqBufferPool.State} {place : Place} (hgives : Gives s.pool pool)
    (hrest : s.place.rest = []) (hplace : ∀ i data slot rest, place ≠ .serializing i data slot rest)
    (hmessage : ∀ i, place.message = some i → s.place.message = some i)
    (howned : ∀ i slot, pool.holds i = some slot → s.place.message = some i →
      place.message = some i) : Inv { s with pool := pool, place := place } where
  exclusive := hgives.exclusive h.exclusive
  length := h.length.trans hgives.length.symm
  current i hi := h.current i (hmessage i hi)
  serializing i data slot rest heq := absurd heq (hplace i data slot rest)
  written i f slot hf hslot := by
    have := h.written i f slot hf (hgives.holds i slot hslot)
    rw [unwritten_of_rest hrest] at this
    exact this.mono _
  wire := h.wire
  silent := h.silent
  owned i slot hslot := (h.owned i slot (hgives.holds i slot hslot)).imp_right (howned i slot hslot)
  queued_lt := h.queued_lt

/-- Meanwhile the pool takes a step that leaves the message of the call alone. -/
theorem background (h : Inv s) {pool : ZmqBufferPool.State} (hgives : Gives s.pool pool)
    (hkeeps : ∀ i, s.place.message = some i → pool.holds i = s.pool.holds i) :
    Inv { s with pool := pool } where
  exclusive := hgives.exclusive h.exclusive
  length := h.length.trans hgives.length.symm
  current := h.current
  serializing i data slot rest heq := by
    obtain ⟨hframe, hholds, hrest⟩ := h.serializing i data slot rest heq
    exact ⟨hframe, (hkeeps i (heq ▸ rfl)).trans hholds, hrest⟩
  written i f slot hf hslot := h.written i f slot hf (hgives.holds i slot hslot)
  wire := h.wire
  silent := h.silent
  owned i slot hslot := h.owned i slot (hgives.holds i slot hslot)
  queued_lt := h.queued_lt

theorem obtains (h : Inv s) {data : Frame} {slot : Fin kPoolSize}
    (hplace : s.place = .acquiring data) (hexcl : (s.pool.take slot).Exclusive) :
    Inv ({ s with pool := s.pool.take slot }.obtain data slot) where
  exclusive := hexcl
  length := by
    show (s.frames ++ [data]).length = (s.pool.messages ++ [_]).length
    rw [List.length_append, List.length_append, h.length]
    rfl
  current i hi := by
    cases hi
    refine ⟨Bool.eq_false_iff.mpr fun hq => ?_, ?_⟩
    · exact Nat.lt_irrefl _ (h.queued_lt _ hq)
    · show _ < (s.frames ++ [data]).length
      simp
  serializing i data' slot' rest heq := by
    cases heq
    refine ⟨List.getElem?_concat_length, ?_, fun j hj => List.mem_range.mp hj⟩
    show (s.pool.take slot).holds _ = _
    rw [ZmqBufferPool.holds_take, h.length, Function.update_self]
  written i f slot' hf hslot := by
    change (s.frames ++ [data])[i]? = some f at hf
    change (s.pool.take slot).holds i = some slot' at hslot
    rw [ZmqBufferPool.holds_take, ← h.length] at hslot
    rcases eq_or_ne i s.frames.length with rfl | hi
    · -- nothing is written yet
      rw [List.getElem?_concat_length] at hf
      cases hf
      rw [unwritten_message rfl]
      intro j b hb hj
      exact absurd (List.mem_range.mpr (List.getElem?_eq_some_iff.mp hb).1) hj
    · rw [Function.update_of_ne hi] at hslot
      have hlt : i < s.frames.length := by
        have := (List.getElem?_eq_some_iff.mp hf).1
        rw [List.length_append, List.length_singleton] at this
        omega
      rw [List.getElem?_append_left hlt] at hf
      have hold := h.written i f slot' hf hslot
      rw [unwritten_of_rest (by rw [hplace]; rfl)] at hold
      exact hold.mono _
  wire i c f hf := by
    change (s.frames ++ [data])[i]? = some f at hf
    rcases Nat.lt_or_ge i s.frames.length with hi | hi
    · rw [List.getElem?_append_left hi] at hf
      exact h.wire i c f hf
    · have hq : s.queued i = false :=
        Bool.eq_false_iff.mpr fun hq => Nat.not_lt.mpr hi (h.queued_lt i hq)
      show s.wire i c <+: _
      rw [h.silent i c hq]
      exact List.nil_prefix
  silent := h.silent
  owned i slot' hslot := by
    change (s.pool.take slot).holds i = some slot' at hslot
    rw [ZmqBufferPool.holds_take, ← h.length, Function.update_apply] at hslot
    split at hslot
    next heq => exact .inr (congrArg some heq.symm)
    next =>
      refine .inl ((h.owned i slot' hslot).resolve_right fun hm => ?_)
      rw [hplace] at hm
      cases hm
  queued_lt i hi := by
    show i < (s.frames ++ [data]).length
    have := h.queued_lt i hi
    simp only [List.length_append]
    omega

/-- No other message has the slot that is written to. -/
theorem copies (h : Inv s) {i : Nat} {data : Frame} {slot : Fin kPoolSize} {rest : List Nat}
    {j : Fin kBufferSize} {b : UInt8} (hplace : s.place = .serializing i data slot rest)
    (hb : data.payload[j.val]? = some b) :
    Inv { s.write slot j b with
      place := .serializing i data slot (rest.filter (· ≠ j.val)) } := by
  obtain ⟨hframe, hholds, hrest⟩ := h.serializing i data slot rest hplace
  have hmessage : s.place.message = some i := hplace ▸ rfl
  refine
    { h with
      current := fun k hk => ?_
      serializing := fun k data' slot' rest' heq => ?_
      written := fun k f slot' hf hslot => ?_
      owned := fun k slot' hslot => ?_ }
  · cases hk
    exact h.current i hmessage
  · cases heq
    exact ⟨hframe, hholds, fun k hk => hrest k (List.mem_of_mem_filter hk)⟩
  · show Written (Function.update s.data slot _ slot') _ _
    have hold := h.written k f slot' hf hslot
    rcases eq_or_ne slot' slot with rfl | hne
    · obtain rfl : k = i := h.exclusive.unique hslot hholds
      cases hf.symm.trans hframe
      rw [unwritten_message hmessage, hplace] at hold
      rw [Function.update_self, unwritten_message rfl]
      exact hold.update hb
    · have hk : k ≠ i := fun heq => hne (Option.some.inj (hslot.symm.trans (heq ▸ hholds)))
      have hunwritten : s.unwritten k = [] := by
        rw [State.unwritten, hmessage, if_neg fun heq => hk (Option.some.inj heq).symm]
      rw [hunwritten] at hold
      rw [Function.update_of_ne hne]
      exact hold.mono _
  · refine (h.owned k slot' hslot).imp_right fun hm => ?_
    exact hmessage.symm.trans hm

theorem payloadTaken (h : Inv s) {i : Nat} (hplace : s.place = .sendPayload i) :
    Inv { s with queued := Function.update s.queued i true, place := .outside } := by
  have hmessage : s.place.message = some i := hplace ▸ rfl
  refine
    { h with
      current := fun k hk => ?_
      serializing := fun k data slot rest heq => ?_
      written := fun k f slot hf hslot => ?_
      silent := fun k c hk => ?_
      owned := fun k slot hslot => .inl ?_
      queued_lt := fun k hk => ?_ }
  · cases hk
  · cases heq
  · have hold := h.written k f slot hf hslot
    rw [unwritten_of_rest (by rw [hplace]; rfl)] at hold
    exact hold.mono _
  · change Function.update s.queued i true k = false at hk
    rcases eq_or_ne k i with rfl | hne
    · rw [Function.update_self] at hk
      cases hk
    · rw [Function.update_of_ne hne] at hk
      exact h.silent k c hk
  · show Function.update s.queued i true k = true
    rw [Function.update_apply]
    split
    next => rfl
    next hne =>
      exact (h.owned k slot hslot).resolve_right fun hm =>
        hne (Option.some.inj (hm.symm.trans hmessage))
  · change Function.update s.queued i true k = true at hk
    rcases eq_or_ne k i with rfl | hne
    · exact (h.current k hmessage).2
    · rw [Function.update_of_ne hne] at hk
      exact h.queued_lt k hk

theorem transmits (h : Inv s) {i c : Nat} {f : Frame} {slot : Fin kPoolSize}
    (hqueued : s.queued i = true) (hframe : s.frames[i]? = some f)
    (hholds : s.pool.holds i = some slot) (hk : (s.wire i c).length < kBufferSize)
    (hlen : (s.wire i c).length < f.payload.length) :
    Inv (s.read i c (s.data slot ⟨(s.wire i c).length, hk⟩)) := by
  have hunwritten : s.unwritten i = [] := by
    refine if_neg fun hm => ?_
    rw [(h.current i hm).1] at hqueued
    cases hqueued
  have hwritten := h.written i f slot hframe hholds
  rw [hunwritten] at hwritten
  have hbyte := hwritten ⟨_, hk⟩ _ (List.getElem?_eq_getElem hlen) List.not_mem_nil
  refine
    { h with
      wire := fun k d g hg => ?_
      silent := fun k d hd => ?_ }
  · show Function.update s.wire i _ k d <+: g.payload
    rcases eq_or_ne k i with rfl | hne
    · cases hg.symm.trans hframe
      rw [Function.update_self, Function.update_apply]
      split
      next heq =>
        rw [hbyte]
        exact List.concat_get_prefix (h.wire k c f hframe) hlen
      next => exact h.wire k d f hframe
    · rw [Function.update_of_ne hne]
      exact h.wire k d g hg
  · show Function.update s.wire i _ k d = []
    rcases eq_or_ne k i with rfl | hne
    · exact absurd hqueued (Bool.eq_false_iff.mp hd)
    · rw [Function.update_of_ne hne]
      exact h.silent k d hd

theorem step {a : Action} (h : Inv s) (hs : PayloadBuffers.step s a = some t) : Inv t := by
  cases effect_of_step hs with
  | sends hplace hpool =>
    have hmessages : ∀ pool, ZmqBufferPool.step s.pool .acquire = some pool →
        pool.messages = s.pool.messages := by
      intro pool hpool
      cases ZmqBufferPool.effect_of_step hpool
      rfl
    refine h.move (.of_messages hpool (hmessages _ hpool)) (hplace ▸ rfl) ?_ ?_ ?_
    · intro _ _ _ _ heq; cases heq
    · intro _ hi; cases hi
    · rw [hplace]; intro _ _ _ hi; cases hi
  | probes hplace hpool hmessages =>
    refine h.background (.of_messages hpool hmessages) fun i hi => ?_
    rw [hplace] at hi
    cases hi
  | exhausted hplace hpool hmessages =>
    refine h.move (.of_messages hpool hmessages) (hplace ▸ rfl) ?_ ?_ ?_
    · intro _ _ _ _ heq; cases heq
    · intro _ hi; cases hi
    · rw [hplace]; intro _ _ _ hi; cases hi
  | obtains hplace hpool => exact h.obtains hplace (h.exclusive.step hpool)
  | copies hplace hb => exact h.copies hplace hb
  | builds hplace | topicTaken hplace =>
    refine h.move (.refl _) (hplace ▸ rfl) ?_ ?_ ?_
    · intro _ _ _ _ heq; cases heq
    · intro _ hi; rw [hplace]; exact hi
    · rw [hplace]; intro _ _ _ hi; exact hi
  | payloadTaken hplace => exact h.payloadTaken hplace
  | refused hplace =>
    rcases hplace with hplace | hplace
    all_goals
      refine h.move (.refl _) (hplace ▸ rfl) ?_ ?_ ?_
      · intro _ _ _ _ heq; cases heq
      · intro _ hi; rw [hplace]; exact hi
      · rw [hplace]; intro _ _ _ hi; exact hi
  | destroys hplace hpool =>
    refine h.move (.release hpool) (hplace ▸ rfl) ?_ ?_ ?_
    · intro _ _ _ _ heq; cases heq
    · intro _ hi; rw [hplace]; exact hi
    · rw [hplace]; intro _ _ _ hi; exact hi
  | frees hplace hpool =>
    refine h.move (.store hpool) (hplace ▸ rfl) ?_ ?_ ?_
    · intro _ _ _ _ heq; cases heq
    · intro _ hi; cases hi
    · rw [hplace, Gives.holds_store hpool]
      intro i slot hi hm
      cases hm
      rw [Function.update_self] at hi
      cases hi
  | transmits hqueued hframe hholds hk hlen => exact h.transmits hqueued hframe hholds hk hlen
  | releases _ hpool =>
    exact h.background (.release hpool) fun i _ => congrFun (Gives.holds_release hpool) i
  | stores hqueued hpool =>
    refine h.background (.store hpool) fun i hi => ?_
    rw [Gives.holds_store hpool, Function.update_of_ne]
    rintro rfl
    rw [(h.current _ hi).1] at hqueued
    cases hqueued

theorem exec (hs : (machine next memory).exec (machine next memory).init as = some s) : Inv s :=
  (machine next memory).exec_invariant (fun _ _ _ h _ hs => h.step hs) (init next memory)
    (machine next memory).along_true hs

end Inv

/-! ## What arrives -/

/-- The messages are made from the events that `SendTyped` is called with, in their order. -/
def FromCalls (as : List Action) (s : State) : Prop :=
  (s.frames ++ s.place.waiting).Sublist (as.filterMap Action.frame)

theorem FromCalls.step {a : Action} (h : FromCalls as s) (hs : PayloadBuffers.step s a = some t) :
    FromCalls (as ++ [a]) t := by
  have hframes : s.frames.Sublist (as.filterMap Action.frame) :=
    (List.sublist_append_left ..).trans h
  unfold FromCalls at h ⊢
  rw [List.filterMap_append]
  cases effect_of_step hs with
  | sends => exact hframes.append (.refl _)
  | obtains hplace =>
    rw [hplace] at h
    show ((s.frames ++ [_]) ++ []).Sublist _
    rw [List.append_nil]
    exact h.trans (List.sublist_append_left ..)
  | probes | transmits | releases | stores => exact h.trans (List.sublist_append_left ..)
  | exhausted | copies | builds | topicTaken | payloadTaken | refused | destroys | frees =>
    show (s.frames ++ []).Sublist _
    rw [List.append_nil]
    exact hframes.trans (List.sublist_append_left ..)

theorem FromCalls.exec (hs : (machine next memory).exec (machine next memory).init as = some s) :
    FromCalls as s := by
  have hinit : FromCalls [] (machine next memory).init := List.Sublist.refl []
  exact (machine next memory).exec_history (R := FromCalls) (fun _ _ _ _ h _ hs => h.step hs)
    hinit (machine next memory).along_true hs

/-- The payloads when the actions `as` have led to `s`. -/
structure Intact (as : List Action) (s : State) : Prop where
  frames : s.frames.Sublist (as.filterMap Action.frame)
  /-- A connection is sent the beginning of a serialized event. -/
  wire : ∀ i c f, s.frames[i]? = some f → s.wire i c <+: f.payload
  /-- A subscriber with a whole payload gets the event back. -/
  whole : ∀ i c f, s.frames[i]? = some f → (s.wire i c).length = wireSize f.kind →
    parse readFrame (s.wire i c) = some ⟨f.kind, f.event⟩
  /-- Nothing is sent of a message that `send` has not taken. -/
  silent : ∀ i c, s.queued i = false → s.wire i c = []
  /-- A slot is in use for a message that ZMQ has or for the call in progress. -/
  owned : ∀ slot, s.pool.inUse slot = true →
    ∃ i, s.pool.holds i = some slot ∧ (s.queued i = true ∨ s.place.message = some i)
  /-- `serialize` stays in its buffer. -/
  writes : ∀ i data slot rest, s.place = .serializing i data slot rest →
    ∀ j ∈ rest, ∃ t, step s (.copy j) = some t
  /-- ZMQ stays in the buffer, too. -/
  reads : ∀ i c f slot, s.queued i = true → s.frames[i]? = some f →
    s.pool.messages[i]? = some ⟨slot, .held⟩ → (s.wire i c).length < wireSize f.kind →
      ∃ t, step s (.transmit i c) = some t

theorem exists_copy {i j : Nat} {data : Frame} {slot : Fin kPoolSize} {rest : List Nat}
    (hplace : s.place = .serializing i data slot rest) (hj : j ∈ rest)
    (hlen : j < data.payload.length) : ∃ t, step s (.copy j) = some t := by
  have hbound : j < kBufferSize := Nat.lt_of_lt_of_le hlen (length_serialize_le ..)
  rw [step, copy, hplace]
  simp only [List.getElem?_eq_getElem hlen, dif_pos hbound, if_pos hj]
  exact ⟨_, rfl⟩

theorem exists_transmit {i c : Nat} {f : Frame} {slot : Fin kPoolSize}
    (hqueued : s.queued i = true) (hframe : s.frames[i]? = some f)
    (hmessage : s.pool.messages[i]? = some ⟨slot, .held⟩)
    (hlen : (s.wire i c).length < wireSize f.kind) : ∃ t, step s (.transmit i c) = some t := by
  have hbound : (s.wire i c).length < kBufferSize := by
    rw [← length_serialize f.kind f.event f.pads] at hlen
    exact Nat.lt_of_lt_of_le hlen (length_serialize_le ..)
  rw [step, transmit, hframe, hmessage]
  simp only [dif_pos hbound, hqueued, hlen, and_self, if_true]
  exact ⟨_, rfl⟩

/-- Whatever the buffers held before, whenever ZMQ reads and releases them. -/
theorem payloads_intact (next : UInt64) (memory : Fin kPoolSize → Buffer) (as : List Action)
    (s : State) (hs : (machine next memory).exec (machine next memory).init as = some s) :
    Intact as s := by
  have h := Inv.exec hs
  refine ⟨(List.sublist_append_left ..).trans (FromCalls.exec hs), h.wire, ?_, h.silent, ?_, ?_, ?_⟩
  · intro i c f hf hlen
    have hwhole : s.wire i c = f.payload := (h.wire i c f hf).eq_of_length
      (hlen.trans (length_serialize f.kind f.event f.pads).symm)
    rw [hwhole]
    exact (reads_serialize f.kind f.event f.pads).parse
  · intro slot hslot
    obtain ⟨i, hi⟩ := h.exclusive.inUse_iff.mp hslot
    exact ⟨i, hi, h.owned i slot hi⟩
  · intro i data slot rest hplace j hj
    exact exists_copy hplace hj ((h.serializing i data slot rest hplace).2.2 j hj)
  · intro i c f slot hqueued hframe hmessage hlen
    exact exists_transmit hqueued hframe hmessage hlen

def gold : TickData :=
  { exchangeTimestamp := 1700000000000, localDiff := 3, tradeId := 77
    price := 4615063718147915776, quantity := 4607182418800017408, channelId := 1
    symbol := Vector.replicate 12 71, isBuyerMaker := true, padding := Vector.replicate 3 0 }

def goldFrame : Frame := ⟨.tick, gold, ⟨Vector.replicate 4 0xAA, Vector.replicate 4 0⟩⟩

/-- A call that copies the bytes in the order `js`. -/
def sendGold (js : List Nat) (answers : List Action) : List Action :=
  .sendTyped goldFrame :: .acquire :: .acquire :: (js.map Action.copy ++ .build :: answers)

/-- A tick is refused once. Then it is taken and sent to a connection, and ZMQ releases the buffer
while the next event is on its way. -/
def goldSent : List Action :=
  List.flatten
    [sendGold (List.range 65).reverse [.answer true, .answer false, .destroy, .destroy],
      sendGold (List.range 65) [.answer true, .answer true],
      List.replicate 65 (.transmit 1 4),
      [.sendTyped goldFrame, .acquire, .release 1, .acquire, .store 1]]

/-- The subscriber has the tick. -/
theorem goldSent_intact :
    ∃ s, (machine 0 fun _ _ => 0xFF).exec (machine 0 fun _ _ => 0xFF).init goldSent = some s ∧
      s.wire 1 4 = goldFrame.payload ∧ s.wire 0 4 = [] ∧ Intact goldSent s := by
  have hrun : ((machine 0 fun _ _ => 0xFF).exec (machine 0 fun _ _ => 0xFF).init goldSent).map
      (fun s => (s.wire 1 4, s.wire 0 4)) = some (goldFrame.payload, []) := by decide +kernel
  obtain ⟨s, hs, hwire⟩ := Option.map_eq_some_iff.mp hrun
  obtain ⟨hsent, hrefused⟩ := Prod.mk.inj hwire
  exact ⟨s, hs, hsent, hrefused, payloads_intact 0 (fun _ _ => 0xFF) goldSent s hs⟩

end PayloadBuffers

end Sqc
