import Mathlib.Data.List.Infix
import SmartQuantCollector.Storage.Engine.MmapEngine

/-! # Whole appends of an mmap engine

The callers of `AppendRaw` hold a lock, so that a record is appended from one state at rest to the
next. When `RollNewFile` succeeds and a file has room for each call, the appends return, what was in
the files of the engine stays there, and each call has its bytes in one of them (`append_spec`). -/

namespace Sqc
namespace MmapStorageEngine

/-- `RollNewFile` has mapped the next file. -/
def State.rolled (s : State) : State := { s with sequence := s.sequence + 1, stage := .reset }

/-- No call is in progress. -/
def AtRest (s : State) : Prop := s.stage = .test ∧ s.calls = []

instance (s : State) : Decidable (AtRest s) := inferInstanceAs (Decidable (_ ∧ _))

/-- The operations up to the next state at rest, with every `RollNewFile` succeeding. -/
def settle (cfg : Config) : Nat → State → Option State
  | 0, s => if AtRest s then some s else none
  | n + 1, s => if AtRest s then some s else (step cfg s true).bind (settle cfg n)

/-- The calls of a record, each of at most four operations. -/
def append (cfg : Config) (s : State) (calls : List (List UInt8)) : Option State :=
  (start s calls).bind (settle cfg (4 * calls.length))

/-- A new engine whose first file is mapped. -/
def opened (disk : Nat → File) : State := (openOrCreate disk true).resetHeader

variable {cfg : Config} {s t u : State} {n : Nat}

theorem settle_of_atRest (h : AtRest s) (n : Nat) : settle cfg n s = some s := by
  cases n with
  | zero => exact if_pos h
  | succ n => exact if_pos h

theorem settle_step (hrest : ¬AtRest s) (hstep : step cfg s true = some t) :
    settle cfg (n + 1) s = settle cfg n t := by
  rw [settle, if_neg hrest, hstep, Option.bind_some]

theorem settle_succ (h : settle cfg n s = some t) : settle cfg (n + 1) s = some t := by
  induction n generalizing s with
  | zero =>
    simp only [settle, Option.ite_none_right_eq_some] at h
    rw [settle_of_atRest h.1]
    exact h.2
  | succ n ih =>
    rcases Classical.em (AtRest s) with hrest | hrest
    · rw [settle_of_atRest hrest] at h ⊢
      exact h
    · rw [settle, if_neg hrest] at h
      obtain ⟨v, hv, h⟩ := Option.bind_eq_some_iff.mp h
      rw [settle_step hrest hv]
      exact ih h

/-- What an engine has written stays where it is. -/
structure Grown (s t : State) : Prop where
  sequence : s.sequence ≤ t.sequence
  payload : ∀ n ≤ s.sequence, s.payload n <+: t.payload n

theorem Grown.refl (s : State) : Grown s s := ⟨Nat.le_refl _, fun _ _ => List.prefix_rfl⟩

theorem Grown.trans (h : Grown s t) (h' : Grown t u) : Grown s u :=
  ⟨h.sequence.trans h'.sequence,
    fun n hn => (h.payload n hn).trans (h'.payload n (hn.trans h.sequence))⟩

/-- The bytes are in a file that the engine has written. -/
def Holds (s : State) (bytes : List UInt8) : Prop := ∃ n ≤ s.sequence, bytes <:+: s.payload n

theorem Holds.grown {bytes : List UInt8} (h : Holds s bytes) (hgrown : Grown s t) :
    Holds t bytes := by
  obtain ⟨n, hn, hinfix⟩ := h
  exact ⟨n, hn.trans hgrown.sequence, hinfix.trans (hgrown.payload n hn).isInfix⟩

/-- An engine with a mapped file and the calls that are to be made. -/
structure Calling (s : State) (calls : List (List UInt8)) : Prop where
  ok : Ok s
  isOpen : s.isOpen = true
  stage : s.stage = .test
  calls : s.calls = calls

/-- A call fits into an empty file, and the mapping covers the file. -/
structure Room (cfg : Config) (bytes : List UInt8) : Prop where
  file : kHeaderSize + bytes.length < cfg.maxFileSize
  mapping : cfg.maxFileSize ≤ cfg.mmapSize

variable {bytes : List UInt8} {rest calls : List (List UInt8)}

theorem not_atRest_of_calls (h : s.calls = bytes :: rest) : ¬AtRest s := by
  rintro ⟨-, hnil⟩
  cases h.symm.trans hnil

/-- The `memcpy` and the store of `write_offset`. -/
theorem write_spec (hok : Ok s) (hstage : s.stage = .copy) (hcalls : s.calls = bytes :: rest)
    (hfit : s.offset + bytes.length ≤ cfg.mmapSize) :
    ∃ t, (∀ n, settle cfg (n + 2) s = settle cfg n t) ∧ Calling t rest ∧ Grown s t ∧
      Holds t bytes := by
  have hcopy : step cfg s true = some (s.copyBytes bytes) := by
    simp only [step, hstage, hcalls, if_pos hfit]
  have hpublish : step cfg (s.copyBytes bytes) true =
      some ((s.copyBytes bytes).publishBytes bytes rest) := by
    simp only [step, State.copyBytes, hcalls]
  have hcopies : Effect cfg s (s.copyBytes bytes) := .copies hstage hcalls
  have hok' := hcopies.ok hok
  have hpublishes : Effect cfg (s.copyBytes bytes)
      ((s.copyBytes bytes).publishBytes bytes rest) := .publishes rfl hcalls
  have hpayload : ((s.copyBytes bytes).publishBytes bytes rest).payload =
      Function.update s.payload s.sequence (s.payload s.sequence ++ bytes) := by
    rw [hok'.payload_publishBytes rfl hcalls, hok.payload_copyBytes hstage]
    rfl
  refine ⟨(s.copyBytes bytes).publishBytes bytes rest, fun n => ?_,
    ⟨hpublishes.ok hok', ?_, rfl, rfl⟩, ⟨Nat.le_refl _, fun n _ => ?_⟩, ?_⟩
  · rw [settle_step (not_atRest_of_calls hcalls) hcopy,
      settle_step (not_atRest_of_calls (s := s.copyBytes bytes) hcalls) hpublish]
  · exact (hok.writing (.inl hstage)).1
  · rw [hpayload]
    rcases eq_or_ne n s.sequence with rfl | hne
    · rw [Function.update_self]
      exact List.prefix_append ..
    · rw [Function.update_of_ne hne]
  · refine ⟨s.sequence, Nat.le_refl _, ?_⟩
    rw [hpayload, Function.update_self]
    exact (List.suffix_append ..).isInfix

/-- A call of `AppendRaw`. -/
theorem call_spec (h : Calling s (bytes :: rest)) (hroom : Room cfg bytes) :
    ∃ t, (∀ n u, settle cfg n t = some u → settle cfg (n + 4) s = some u) ∧ Calling t rest ∧
      Grown s t ∧ Holds t bytes := by
  have hrest := not_atRest_of_calls h.calls
  rcases eq_or_ne bytes [] with rfl | hne
  · -- an empty call returns at once
    have hstep : step cfg s true = some { s with calls := rest } := by
      simp only [step, h.stage, h.calls, List.isEmpty_nil, Bool.or_true, if_true]
    have heffect : Effect cfg s { s with calls := rest } := .returns h.stage h.calls (.inr rfl)
    refine ⟨{ s with calls := rest }, fun n u hu => ?_,
      ⟨heffect.ok h.ok, h.isOpen, h.stage, rfl⟩, ⟨Nat.le_refl _, fun _ _ => List.prefix_rfl⟩,
      s.sequence, Nat.le_refl _, List.nil_infix⟩
    rw [settle_step hrest hstep]
    exact settle_succ (settle_succ (settle_succ hu))
  have hgo : (!s.isOpen || bytes.isEmpty) = false := by
    rw [h.isOpen, List.isEmpty_eq_false_iff.mpr hne]
    rfl
  rcases Classical.em (NeedsRoll cfg s bytes) with hroll | hroll
  · -- the next file is mapped and reset before the bytes are copied
    have hstep : step cfg s true = some s.rolled := by
      simp only [step, h.stage, h.calls, hgo, Bool.false_eq_true, if_false, if_pos hroll, if_true,
        State.rolled]
    have hrolls : Effect cfg s s.rolled := .rolls h.stage h.calls h.isOpen hne hroll
    have hresets : Effect cfg s.rolled s.rolled.resetHeader := .resets rfl
    have hcopy : s.rolled.resetHeader.stage = .copy := by
      simp only [State.rolled, State.resetHeader, h.calls, List.isEmpty_cons, Bool.false_eq_true,
        if_false]
    have hfit : s.rolled.resetHeader.offset + bytes.length ≤ cfg.mmapSize :=
      (hroom.file.trans_le hroom.mapping).le
    have hgrown : Grown s s.rolled.resetHeader := by
      refine ⟨Nat.le_succ _, fun n hn => ?_⟩
      have hne : n ≠ s.rolled.sequence := (Nat.lt_succ_of_le hn).ne
      rw [payload_resetHeader, Function.update_of_ne hne]
      exact List.prefix_rfl
    obtain ⟨t, hsettle, hcalling, hgrown', hholds⟩ :=
      write_spec (hresets.ok (hrolls.ok h.ok)) hcopy h.calls hfit
    refine ⟨t, fun n u hu => ?_, hcalling, hgrown.trans hgrown', hholds⟩
    rw [settle_step hrest hstep, settle_step (not_atRest_of_calls (s := s.rolled) h.calls) rfl,
      hsettle]
    exact hu
  · have hstep : step cfg s true = some { s with stage := .copy } := by
      simp only [step, h.stage, h.calls, hgo, Bool.false_eq_true, if_false, if_neg hroll]
    have hfits : Effect cfg s { s with stage := .copy } :=
      .fits h.stage h.calls h.isOpen hne hroll
    have hfit : s.offset + bytes.length ≤ cfg.mmapSize :=
      ((Nat.lt_of_not_le hroll).trans_le hroom.mapping).le
    obtain ⟨t, hsettle, hcalling, hgrown, hholds⟩ := write_spec (hfits.ok h.ok) rfl h.calls hfit
    refine ⟨t, fun n u hu => ?_, hcalling, ⟨hgrown.sequence, hgrown.payload⟩, hholds⟩
    rw [settle_step hrest hstep, hsettle]
    exact settle_succ hu

theorem settle_calls (h : Calling s calls) (hroom : ∀ bytes ∈ calls, Room cfg bytes) :
    ∃ t, settle cfg (4 * calls.length) s = some t ∧ Calling t [] ∧ Grown s t ∧
      ∀ bytes ∈ calls, Holds t bytes := by
  induction calls generalizing s with
  | nil => exact ⟨s, settle_of_atRest ⟨h.stage, h.calls⟩ _, h, .refl s, List.forall_mem_nil _⟩
  | cons bytes rest ih =>
    obtain ⟨hbytes, hrest⟩ := List.forall_mem_cons.mp hroom
    obtain ⟨u, hsettle, hcalling, hgrown, hholds⟩ := call_spec h hbytes
    obtain ⟨t, ht, hdone, hgrown', hall⟩ := ih hcalling hrest
    refine ⟨t, hsettle _ t ht, hdone, hgrown.trans hgrown', ?_⟩
    exact List.forall_mem_cons.mpr ⟨hholds.grown hgrown', hall⟩

theorem append_spec (h : Calling s []) (hroom : ∀ bytes ∈ calls, Room cfg bytes) :
    ∃ t, append cfg s calls = some t ∧ Calling t [] ∧ Grown s t ∧
      ∀ bytes ∈ calls, Holds t bytes := by
  have hstart : start s calls = some { s with calls := calls } := if_pos ⟨h.stage, h.calls⟩
  have hok := (h.ok.start hstart).2.2.2
  obtain ⟨t, ht, hdone, hgrown, hall⟩ := settle_calls ⟨hok, h.isOpen, h.stage, rfl⟩ hroom
  refine ⟨t, ?_, hdone, ⟨hgrown.sequence, hgrown.payload⟩, hall⟩
  rw [append, hstart, Option.bind_some]
  exact ht

theorem calling_opened (cfg : Config) (disk : Nat → File) : Calling (opened disk) [] := by
  have heffect : Effect cfg (openOrCreate disk true) (opened disk) := .resets rfl
  exact ⟨heffect.ok (ok_openOrCreate disk true), rfl, rfl, rfl⟩

theorem writeOffset_opened (disk : Nat → File) :
    (opened disk).current.writeOffset = kHeaderSize :=
  congrArg File.writeOffset (setCurrent_current (openOrCreate disk true) _)

end MmapStorageEngine
end Sqc
