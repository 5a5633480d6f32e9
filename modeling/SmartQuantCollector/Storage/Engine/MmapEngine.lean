import Mathlib.Data.List.Range
import Mathlib.Data.UInt
import Mathlib.Logic.Function.Basic
import SmartQuantCollector.Lib.Machine

/-! # `MmapStorageEngine` (`src/storage/engine/mmap_engine.cpp`)

The files of one output path and prefix, by sequence number, and an engine that appends to them.
The operations of `AppendRaw` (the size test, mapping the next file, resetting its `write_offset`,
the `memcpy` and the store of `write_offset`) are steps of their own, so that a state between any
two of them is a state a reader or a crash may find. `AppendRecord` is `AppendRaw` of an envelope.

A file that does not exist reads as zeros. All engines of a history use one maximum size, so
`ftruncate` never cuts a file. -/

namespace Sqc

namespace MmapStorageEngine

structure Config where
  maxFileSize : Nat
  pageSize : Nat

/-- The length of a mapping, a whole number of pages. -/
def Config.mmapSize (cfg : Config) : Nat :=
  (cfg.maxFileSize + cfg.pageSize - 1) / cfg.pageSize * cfg.pageSize

theorem Config.maxFileSize_le_mmapSize {cfg : Config} (h : 0 < cfg.pageSize) :
    cfg.maxFileSize ≤ cfg.mmapSize := by
  have hdiv := Nat.div_add_mod (cfg.maxFileSize + cfg.pageSize - 1) cfg.pageSize
  have hmod := Nat.mod_lt (cfg.maxFileSize + cfg.pageSize - 1) h
  rw [mmapSize, Nat.mul_comm]
  omega

def kHeaderSize : Nat := 64

/-! ## Files -/

structure File where
  writeOffset : Nat
  data : Nat → UInt8

namespace File

def zero : File := ⟨0, fun _ => 0⟩

def read (f : File) (offset n : Nat) : List UInt8 := (List.range' offset n).map f.data

/-- The bytes from `kHeaderSize` to `write_offset`. -/
def payload (f : File) : List UInt8 := f.read kHeaderSize (f.writeOffset - kHeaderSize)

/-- `memcpy`. -/
def write (f : File) (offset : Nat) (bytes : List UInt8) : File :=
  { f with data := fun i => if offset ≤ i then bytes[i - offset]?.getD (f.data i) else f.data i }

theorem read_append (f : File) (offset m n : Nat) :
    f.read offset (m + n) = f.read offset m ++ f.read (offset + m) n := by
  rw [read, read, read, ← List.map_append, List.range'_append_1]

theorem read_write_self (f : File) (offset : Nat) (bytes : List UInt8) :
    (f.write offset bytes).read offset bytes.length = bytes := by
  refine List.ext_getElem (by simp [read]) fun i hi hi' => ?_
  simp [read, write, hi']

theorem read_write_of_le (f : File) {offset offset' n : Nat} (bytes : List UInt8)
    (h : offset' + n ≤ offset) : (f.write offset bytes).read offset' n = f.read offset' n := by
  refine List.map_congr_left fun i hi => ?_
  rw [List.mem_range'_1] at hi
  simp only [write]
  rw [if_neg (by omega)]

theorem payload_write (f : File) (bytes : List UInt8) {offset : Nat}
    (h : f.writeOffset ≤ offset) (h' : kHeaderSize ≤ offset) :
    (f.write offset bytes).payload = f.payload := by
  have hle : kHeaderSize + (f.writeOffset - kHeaderSize) ≤ offset := by omega
  exact f.read_write_of_le bytes hle

theorem payload_publish {f : File} {offset : Nat} {bytes : List UInt8}
    (hoffset : f.writeOffset = offset) (hheader : kHeaderSize ≤ offset)
    (hbytes : f.read offset bytes.length = bytes) :
    { f with writeOffset := offset + bytes.length }.payload = f.payload ++ bytes := by
  have hlen : offset + bytes.length - kHeaderSize = (offset - kHeaderSize) + bytes.length := by
    omega
  have hsplit := f.read_append kHeaderSize (offset - kHeaderSize) bytes.length
  rw [Nat.add_sub_cancel' hheader, hbytes] at hsplit
  rw [payload, payload, hoffset]
  show f.read kHeaderSize (offset + bytes.length - kHeaderSize) = _
  rw [hlen, hsplit]

end File

/-! ## The engine -/

/-- Where the engine stands: before the size test of the first call of `calls`, before the store
that resets the `write_offset` of a newly mapped file, before the `memcpy`, or before the store of
`write_offset`. -/
inductive Stage where
  | test
  | reset
  | copy
  | publish
deriving DecidableEq

structure State where
  disk : Nat → File
  sequence : Nat
  isOpen : Bool
  /-- `current_mapped_offset_`. -/
  offset : Nat
  /-- The arguments of the `AppendRaw` calls that are to be made, the first one in progress. -/
  calls : List (List UInt8)
  stage : Stage

namespace State

/-- The file the engine writes to. -/
def current (s : State) : File := s.disk s.sequence

def setCurrent (s : State) (f : File) : Nat → File := Function.update s.disk s.sequence f

def payload (s : State) (n : Nat) : List UInt8 := (s.disk n).payload

/-- `write_offset` and `current_mapped_offset_` of a newly mapped file. -/
def resetHeader (s : State) : State :=
  { s with
    disk := s.setCurrent { s.current with writeOffset := kHeaderSize }
    offset := kHeaderSize
    stage := if s.calls.isEmpty then .test else .copy }

/-- The `memcpy` of `AppendRaw`. -/
def copyBytes (s : State) (bytes : List UInt8) : State :=
  { s with disk := s.setCurrent (s.current.write s.offset bytes), stage := .publish }

/-- The store of `write_offset`, with which `AppendRaw` returns. -/
def publishBytes (s : State) (bytes : List UInt8) (rest : List (List UInt8)) : State :=
  { s with
    disk := s.setCurrent { s.current with writeOffset := s.offset + bytes.length }
    offset := s.offset + bytes.length
    calls := rest
    stage := .test }

end State

/-- A new engine, after `OpenOrCreate` has mapped the first file or failed to. -/
def openOrCreate (disk : Nat → File) (mapped : Bool) : State where
  disk := disk
  sequence := 0
  isOpen := mapped
  offset := kHeaderSize
  calls := []
  stage := if mapped then .reset else .test

/-- The test of `AppendRaw` for a new file. -/
def NeedsRoll (cfg : Config) (s : State) (bytes : List UInt8) : Prop :=
  cfg.maxFileSize ≤ s.offset + bytes.length

instance (cfg : Config) (s : State) (bytes : List UInt8) : Decidable (NeedsRoll cfg s bytes) :=
  inferInstanceAs (Decidable (_ ≤ _))

/-- The next operation of the engine; `mapped` tells whether `RollNewFile` succeeds there. Writing
outside the mapping is not a step. -/
def step (cfg : Config) (s : State) (mapped : Bool) : Option State :=
  match s.stage, s.calls with
  | .reset, _ => some s.resetHeader
  | .test, bytes :: rest =>
    if !s.isOpen || bytes.isEmpty then some { s with calls := rest }
    else if NeedsRoll cfg s bytes then
      if mapped then some { s with sequence := s.sequence + 1, stage := .reset }
      else some { s with sequence := s.sequence + 1, isOpen := false, calls := rest }
    else some { s with stage := .copy }
  | .copy, bytes :: _ =>
    if s.offset + bytes.length ≤ cfg.mmapSize then some (s.copyBytes bytes) else none
  | .publish, bytes :: rest => some (s.publishBytes bytes rest)
  | _, [] => none

/-- Starting the calls of one record. -/
def start (s : State) (calls : List (List UInt8)) : Option State :=
  if s.stage = .test ∧ s.calls = [] then some { s with calls := calls } else none

/-! ## What a step does -/

/-- What the engine knows between two operations. -/
structure Ok (s : State) : Prop where
  isOpen : s.stage ≠ .test → s.isOpen = true
  current : s.isOpen = true → s.stage ≠ .reset →
    s.current.writeOffset = s.offset ∧ kHeaderSize ≤ s.offset
  copied : ∀ {bytes rest}, s.stage = .publish → s.calls = bytes :: rest →
    s.current.read s.offset bytes.length = bytes

/-- The operations, with the states they lead from and to. -/
inductive Effect (cfg : Config) (s : State) : State → Prop
  | returns {bytes : List UInt8} {rest : List (List UInt8)} : s.stage = .test →
    s.calls = bytes :: rest → s.isOpen = false ∨ bytes = [] → Effect cfg s { s with calls := rest }
  | rollFails {bytes : List UInt8} {rest : List (List UInt8)} : s.stage = .test →
    s.calls = bytes :: rest → s.isOpen = true → bytes ≠ [] → NeedsRoll cfg s bytes →
    Effect cfg s { s with sequence := s.sequence + 1, isOpen := false, calls := rest }
  | rolls {bytes : List UInt8} {rest : List (List UInt8)} : s.stage = .test →
    s.calls = bytes :: rest → s.isOpen = true → bytes ≠ [] → NeedsRoll cfg s bytes →
    Effect cfg s { s with sequence := s.sequence + 1, stage := .reset }
  | fits {bytes : List UInt8} {rest : List (List UInt8)} : s.stage = .test →
    s.calls = bytes :: rest → s.isOpen = true → bytes ≠ [] → ¬NeedsRoll cfg s bytes →
    Effect cfg s { s with stage := .copy }
  | resets : s.stage = .reset → Effect cfg s s.resetHeader
  | copies {bytes : List UInt8} {rest : List (List UInt8)} : s.stage = .copy →
    s.calls = bytes :: rest → Effect cfg s (s.copyBytes bytes)
  | publishes {bytes : List UInt8} {rest : List (List UInt8)} : s.stage = .publish →
    s.calls = bytes :: rest → Effect cfg s (s.publishBytes bytes rest)

variable {cfg : Config} {s t : State}

theorem step_effect {mapped : Bool} (h : step cfg s mapped = some t) : Effect cfg s t := by
  unfold step at h
  split at h
  next hstage =>
    cases h
    exact .resets hstage
  next bytes rest hstage hcalls =>
    split at h
    next hreturn =>
      cases h
      refine .returns hstage hcalls ?_
      simpa using hreturn
    next hgo =>
      have hopen : s.isOpen = true ∧ bytes ≠ [] := by simpa using hgo
      split at h
      next hroll =>
        split at h
        · cases h
          exact .rolls hstage hcalls hopen.1 hopen.2 hroll
        · cases h
          exact .rollFails hstage hcalls hopen.1 hopen.2 hroll
      next hfits =>
        cases h
        exact .fits hstage hcalls hopen.1 hopen.2 hfits
  next hstage hcalls =>
    split at h
    · cases h
      exact .copies hstage hcalls
    · cases h
  next hstage hcalls =>
    cases h
    exact .publishes hstage hcalls
  next => cases h

@[simp] theorem setCurrent_current (s : State) (f : File) : s.setCurrent f s.sequence = f :=
  Function.update_self ..

/-- The payloads after a change of the current file. -/
theorem payload_setCurrent (s : State) (f : File) :
    (fun n => (s.setCurrent f n).payload) = Function.update s.payload s.sequence f.payload := by
  funext n
  rcases eq_or_ne n s.sequence with rfl | hn
  · rw [setCurrent_current, Function.update_self]
  · rw [State.setCurrent, Function.update_of_ne hn, Function.update_of_ne hn]
    rfl

theorem payload_resetHeader (s : State) :
    s.resetHeader.payload = Function.update s.payload s.sequence [] :=
  payload_setCurrent s _

/-- While bytes are written, a file is mapped and its `write_offset` is that of the engine. -/
theorem Ok.writing (h : Ok s) (hstage : s.stage = .copy ∨ s.stage = .publish) :
    s.isOpen = true ∧ s.current.writeOffset = s.offset ∧ kHeaderSize ≤ s.offset := by
  have hopen : s.isOpen = true := by
    apply h.isOpen
    rcases hstage with hstage | hstage <;> rw [hstage] <;> nofun
  refine ⟨hopen, h.current hopen ?_⟩
  rcases hstage with hstage | hstage <;> rw [hstage] <;> nofun

theorem Ok.payload_copyBytes (h : Ok s) (hstage : s.stage = .copy) (bytes : List UInt8) :
    (s.copyBytes bytes).payload = s.payload := by
  obtain ⟨-, hoffset, hheader⟩ := h.writing (.inl hstage)
  refine (payload_setCurrent s _).trans ?_
  rw [File.payload_write _ _ hoffset.le hheader]
  exact Function.update_eq_self ..

theorem Ok.payload_publishBytes (h : Ok s) {bytes : List UInt8} {rest : List (List UInt8)}
    (hstage : s.stage = .publish) (hcalls : s.calls = bytes :: rest) :
    (s.publishBytes bytes rest).payload =
      Function.update s.payload s.sequence (s.payload s.sequence ++ bytes) := by
  obtain ⟨-, hoffset, hheader⟩ := h.writing (.inr hstage)
  refine (payload_setCurrent s _).trans ?_
  rw [File.payload_publish hoffset hheader (h.copied hstage hcalls)]
  rfl

theorem Effect.ok (h : Ok s) (he : Effect cfg s t) : Ok t := by
  cases he with
  | returns hstage _ _ =>
    exact ⟨h.isOpen, h.current, fun hp => by cases hstage.symm.trans hp⟩
  | rollFails hstage _ _ _ _ =>
    exact ⟨fun hne => absurd hstage hne, nofun, fun hp => by cases hstage.symm.trans hp⟩
  | rolls _ _ hopen _ _ => exact ⟨fun _ => hopen, fun _ hne => absurd rfl hne, nofun⟩
  | fits hstage _ hopen _ _ =>
    exact ⟨fun _ => hopen, fun _ _ => h.current hopen (by rw [hstage]; nofun), nofun⟩
  | resets hstage =>
    refine ⟨fun _ => h.isOpen (by rw [hstage]; nofun), fun _ _ => ⟨?_, Nat.le_refl _⟩, fun hp => ?_⟩
    · simp only [State.current, State.resetHeader, setCurrent_current]
    · simp only [State.resetHeader] at hp
      split at hp <;> cases hp
  | @copies bytes rest hstage hcalls =>
    obtain ⟨hopen, hcurrent⟩ := h.writing (.inl hstage)
    refine ⟨fun _ => hopen, fun _ _ => ?_, fun {bytes' rest'} _ hcalls' => ?_⟩
    · simp only [State.current, State.copyBytes, setCurrent_current]
      exact hcurrent
    · cases hcalls.symm.trans hcalls'
      simp only [State.current, State.copyBytes, setCurrent_current]
      exact File.read_write_self ..
  | @publishes bytes rest hstage hcalls =>
    obtain ⟨-, -, hheader⟩ := h.writing (.inr hstage)
    refine ⟨fun hne => absurd rfl hne, fun _ _ => ⟨?_, ?_⟩, nofun⟩
    · simp only [State.current, State.publishBytes, setCurrent_current]
    · exact Nat.le_add_right_of_le hheader

theorem ok_openOrCreate (disk : Nat → File) (mapped : Bool) : Ok (openOrCreate disk mapped) := by
  cases mapped with
  | true => exact ⟨fun _ => rfl, fun _ hne => absurd rfl hne, nofun⟩
  | false => exact ⟨fun hne => absurd rfl hne, nofun, nofun⟩

theorem Ok.start {calls : List (List UInt8)} (h : Ok s) (hs : start s calls = some t) :
    s.stage = .test ∧ s.calls = [] ∧ t = { s with calls := calls } ∧ Ok t := by
  unfold MmapStorageEngine.start at hs
  split at hs
  next hidle =>
    cases hs
    exact ⟨hidle.1, hidle.2, rfl, h.isOpen, h.current, fun hp => by cases hidle.1.symm.trans hp⟩
  next => cases hs

end MmapStorageEngine
end Sqc
