import Mathlib.Data.List.Infix
import SmartQuantCollector.Storage.Engine.MmapEngine

/-! # Runs of the mmap store over the same files

A history is a sequence of runs: a new engine opens the path, appends, and is closed or crashes at
any point. Every engine starts at sequence number 0, and both `OpenOrCreate` and `RollNewFile` reset
the `write_offset` of the file they map, whether or not an earlier run has written to it. -/

namespace Sqc
open Concurrency

namespace MmapStorageEngine.Restart

structure State where
  engine : MmapStorageEngine.State
  running : Bool
  /-- The arguments of the `AppendRaw` calls that have stored their `write_offset`. -/
  completed : List (List UInt8)

inductive Action where
  | openOrCreate (mapped : Bool)
  | append (bytes : List UInt8)
  | run (mapped : Bool)
  | close
  | crash

/-- What the next operation of the engine completes. -/
def completes (s : MmapStorageEngine.State) : List (List UInt8) :=
  match s.stage, s.calls with
  | .publish, bytes :: _ => [bytes]
  | _, _ => []

def step (cfg : Config) (s : State) : Action → Option State
  | .openOrCreate mapped =>
    if s.running then none
    else some { s with
      engine := MmapStorageEngine.openOrCreate s.engine.disk mapped
      running := true }
  | .append bytes =>
    if s.running then (start s.engine [bytes]).map fun e => { s with engine := e } else none
  | .run mapped =>
    if s.running then (MmapStorageEngine.step cfg s.engine mapped).map fun e =>
      { s with engine := e, completed := s.completed ++ completes s.engine }
    else none
  | .close =>
    if s.running ∧ s.engine.stage = .test ∧ s.engine.calls = [] then
      some { s with running := false }
    else none
  | .crash => if s.running then some { s with running := false } else none

/-- Histories over an empty directory. -/
def machine (cfg : Config) : Machine State Action where
  init := ⟨MmapStorageEngine.openOrCreate (fun _ => .zero) false, false, []⟩
  step := step cfg

/-- Every completed record is in the payload of some file. -/
def Kept (s : State) : Prop := ∀ r ∈ s.completed, ∃ n, r <:+: s.engine.payload n

/-- A file whose `write_offset` is reset holds no record. -/
def ResetsUnused (s : State) : Action → Prop
  | .run _ => s.engine.stage = .reset → s.engine.current.writeOffset ≤ kHeaderSize
  | _ => True

instance (s : State) : ∀ a, Decidable (ResetsUnused s a)
  | .run _ => inferInstanceAs (Decidable (_ → _))
  | .openOrCreate _ | .append _ | .close | .crash => isTrue trivial

structure Inv (s : State) : Prop where
  ok : Ok s.engine
  kept : Kept s

variable {cfg : Config} {s t : State}

/-- Payloads that only grow keep the records. -/
theorem Kept.mono (h : Kept s) (hcompleted : t.completed = s.completed)
    (hpayload : ∀ n, s.engine.payload n <+: t.engine.payload n) : Kept t := by
  intro r hr
  obtain ⟨n, hn⟩ := h r (hcompleted ▸ hr)
  exact ⟨n, hn.trans (hpayload n).isInfix⟩

theorem Inv.run {e : MmapStorageEngine.State} (h : Inv s)
    (hreset : s.engine.stage = .reset → s.engine.current.writeOffset ≤ kHeaderSize)
    (he : Effect cfg s.engine e) :
    Inv { s with engine := e, completed := s.completed ++ completes s.engine } := by
  refine ⟨he.ok h.ok, ?_⟩
  have hnone (hne : s.engine.stage ≠ .publish) : completes s.engine = [] := by
    unfold completes
    split
    next hstage _ => exact absurd hstage hne
    next => rfl
  cases he with
  | returns hstage _ _ | rollFails hstage _ _ _ _ | rolls hstage _ _ _ _ | fits hstage _ _ _ _ =>
    rw [hnone (by rw [hstage]; nofun), List.append_nil]
    exact h.kept.mono rfl fun _ => List.prefix_rfl
  | resets hstage =>
    rw [hnone (by rw [hstage]; nofun), List.append_nil]
    refine h.kept.mono rfl fun n => ?_
    -- the file that is reset has an empty payload already
    have hempty : s.engine.payload s.engine.sequence = [] := by
      have := hreset hstage
      show List.map _ (List.range' _ (s.engine.current.writeOffset - kHeaderSize)) = []
      rw [Nat.sub_eq_zero_of_le this]
      rfl
    have hsame : s.engine.resetHeader.payload = s.engine.payload := by
      rw [payload_resetHeader, ← hempty, Function.update_eq_self]
    exact hsame ▸ List.prefix_rfl
  | @copies bytes rest hstage hcalls =>
    rw [hnone (by rw [hstage]; nofun), List.append_nil]
    exact h.kept.mono rfl fun n => h.ok.payload_copyBytes hstage bytes ▸ List.prefix_rfl
  | @publishes bytes rest hstage hcalls =>
    have hpayload := h.ok.payload_publishBytes hstage hcalls
    have hcompletes : completes s.engine = [bytes] := by simp only [completes, hstage, hcalls]
    intro r hr
    rw [hcompletes] at hr
    simp only [hpayload]
    rcases List.mem_append.mp hr with hr | hr
    · obtain ⟨n, hn⟩ := h.kept r hr
      refine ⟨n, hn.trans ?_⟩
      rcases eq_or_ne n s.engine.sequence with rfl | hne
      · rw [Function.update_self]
        exact (List.prefix_append _ _).isInfix
      · rw [Function.update_of_ne hne]
    · cases List.mem_singleton.mp hr
      refine ⟨s.engine.sequence, ?_⟩
      rw [Function.update_self]
      exact (List.suffix_append _ _).isInfix

theorem Inv.step {a : Action} (h : Inv s) (hC : ResetsUnused s a)
    (hs : Restart.step cfg s a = some t) : Inv t := by
  cases a with
  | openOrCreate mapped =>
    simp only [Restart.step] at hs
    split at hs
    · cases hs
    · cases hs
      exact ⟨ok_openOrCreate _ _, h.kept.mono rfl fun _ => List.prefix_rfl⟩
  | append bytes =>
    simp only [Restart.step] at hs
    split at hs
    · obtain ⟨e, he, rfl⟩ := Option.map_eq_some_iff.mp hs
      obtain ⟨-, -, rfl, hok⟩ := h.ok.start he
      exact ⟨hok, h.kept.mono rfl fun _ => List.prefix_rfl⟩
    · cases hs
  | run mapped =>
    simp only [Restart.step] at hs
    split at hs
    · obtain ⟨e, he, rfl⟩ := Option.map_eq_some_iff.mp hs
      exact h.run hC (step_effect he)
    · cases hs
  | close =>
    simp only [Restart.step] at hs
    split at hs
    · cases hs
      exact ⟨h.ok, h.kept⟩
    · cases hs
  | crash =>
    simp only [Restart.step] at hs
    split at hs
    · cases hs
      exact ⟨h.ok, h.kept⟩
    · cases hs

theorem inv_init (cfg : Config) : Inv (machine cfg).init :=
  ⟨ok_openOrCreate _ _, fun _ hr => by cases hr⟩

/-- In every history in which no `write_offset` is reset in a file that holds records, every
completed record stays. -/
theorem kept_of_resetsUnused {as : List Action}
    (hC : (machine cfg).Along ResetsUnused (machine cfg).init as)
    (hs : (machine cfg).exec (machine cfg).init as = some s) : Kept s :=
  ((machine cfg).exec_invariant (I := Inv) (fun _ _ _ h hC ht => h.step hC ht)
    (inv_init cfg) hC hs).kept

def smallFiles : Config := ⟨100, 4096⟩

/-- A run that is closed before its first append, and a run whose second record rolls to a new file
and is lost in a crash after the `memcpy`. -/
def rollAndCrash : List Action :=
  [.openOrCreate true, .run true, .close, .openOrCreate true, .run true,
    .append [1, 2, 3], .run true, .run true, .run true,
    .append (List.replicate 33 7), .run true, .run true, .run true, .crash]

theorem rollAndCrash_kept :
    ((machine smallFiles).exec (machine smallFiles).init rollAndCrash).map
        (fun s => (s.completed, s.engine.payload 0, s.engine.payload 1)) =
      some ([[1, 2, 3]], [1, 2, 3], []) ∧
    ∀ s ∈ (machine smallFiles).exec (machine smallFiles).init rollAndCrash, Kept s :=
  ⟨by decide, fun _ hs => kept_of_resetsUnused (by decide) hs⟩

/-- A run appends a record and is closed; the next run opens the same file. -/
theorem reopening_loses_record :
    ∃ s, (machine smallFiles).exec (machine smallFiles).init
        [.openOrCreate true, .run true, .append [1, 2, 3], .run true, .run true, .run true, .close,
          .openOrCreate true, .run true] = some s ∧ ¬Kept s := by
  refine ⟨_, rfl, fun h => ?_⟩
  obtain ⟨n, hn⟩ := h [1, 2, 3] (List.mem_singleton_self _)
  -- the payload of the first file has been reset, no other file has been touched
  have hnil : [1, 2, 3] <:+: ([] : List UInt8) := by
    cases n with
    | zero => exact hn
    | succ n => exact hn
  exact absurd hnil (by decide)

end MmapStorageEngine.Restart

end Sqc
