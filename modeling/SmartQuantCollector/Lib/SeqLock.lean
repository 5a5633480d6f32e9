import Mathlib.Data.UInt
import Mathlib.Logic.Function.Basic
import SmartQuantCollector.Lib.Machine

/-! # Sequence locks

One writer and any number of readers share some fields and a 64-bit version. A write makes the
version odd, stores the fields one after the other and makes the version even again. A read loads
the version, copies the fields and loads the version again, until both loads give one even number.
Every access is an action of its own.

`log` lists the completed writes, and an attempt to read remembers how many writes had been started
when it began. When fewer than `2 ^ 63` are started during an attempt, the version cannot come back
to where it was, and a read that returns has the last completed write (`returned_eq_last`). -/

namespace Concurrency

namespace SeqLock

inductive Writer (F α : Type*) where
  | idle
  /-- The version is odd, and the fields of `todo` are still to be stored. -/
  | writing (values : F → α) (todo : List F)

inductive Reader (F α : Type*) where
  | idle
  /-- Before the first load of an attempt. -/
  | attempt (snapshot : F → α)
  | copying (v1 : UInt64) (startedAt : Nat) (snapshot : F → α) (todo : List F)
  | returned (snapshot : F → α)

/-- What a read has returned. -/
def Reader.result {F α : Type*} : Reader F α → Option (F → α)
  | .returned snapshot => some snapshot
  | .idle | .attempt _ | .copying .. => none

structure State (F α ι : Type*) where
  version : UInt64
  fields : F → α
  writer : Writer F α
  readers : ι → Reader F α
  log : List (F → α)

inductive Action (F α ι : Type*) where
  /-- A write is called and makes the version odd. -/
  | write (values : F → α)
  /-- The next access of the writer. -/
  | store
  /-- A reader calls the read with whatever is in its snapshot. -/
  | read (r : ι) (snapshot : F → α)
  /-- The next access of a reader. -/
  | load (r : ι)

variable {F α ι : Type*}

namespace State

/-- How many writes were started. -/
def started (s : State F α ι) : Nat :=
  match s.writer with
  | .idle => s.log.length
  | .writing .. => s.log.length + 1

/-- The last completed write. -/
def last (initial : F → α) (s : State F α ι) : F → α := s.log.getLast?.getD initial

end State

/-- The accesses of the writer after the first one. -/
def store [DecidableEq F] (s : State F α ι) : Option (State F α ι) :=
  match s.writer with
  | .idle => none
  | .writing values (f :: todo) =>
    some { s with fields := Function.update s.fields f (values f), writer := .writing values todo }
  | .writing values [] =>
    some { s with version := s.version + 1, writer := .idle, log := s.log ++ [values] }

/-- An access of a reader. -/
def load [DecidableEq F] (order : List F) (s : State F α ι) : Reader F α → Option (Reader F α)
  | .idle => none
  | .attempt snapshot => some (.copying s.version s.started snapshot order)
  | .copying v1 n snapshot (f :: todo) =>
    some (.copying v1 n (Function.update snapshot f (s.fields f)) todo)
  | .copying v1 _ snapshot [] =>
    if v1 &&& 1 ≠ 0 ∨ v1 ≠ s.version then some (.attempt snapshot) else some (.returned snapshot)
  | .returned _ => none

def setReader [DecidableEq ι] (s : State F α ι) (r : ι) (reader : Reader F α) : State F α ι :=
  { s with readers := Function.update s.readers r reader }

/-- Fields are stored and loaded in one order, and start out with `initial`. -/
def machine [DecidableEq F] [DecidableEq ι] (order : List F) (initial : F → α) :
    Machine (State F α ι) (Action F α ι) where
  init := ⟨0, initial, .idle, fun _ => .idle, []⟩
  step s
    | .write values =>
      match s.writer with
      | .idle => some { s with version := s.version + 1, writer := .writing values order }
      | .writing .. => none
    | .store => store s
    | .read r snapshot =>
      match s.readers r with
      | .idle | .returned _ => some (setReader s r (.attempt snapshot))
      | .attempt _ | .copying .. => none
    | .load r => (load order s (s.readers r)).map (setReader s r)

/-- Fewer than `2 ^ 63` writes are started during the attempt that an access belongs to. -/
def FewWrites (s : State F α ι) : Action F α ι → Prop
  | .load r =>
    match s.readers r with
    | .copying _ startedAt _ _ => s.started < startedAt + 2 ^ 63
    | .idle | .attempt _ | .returned _ => True
  | .write _ | .store | .read .. => True

instance (s : State F α ι) (a : Action F α ι) : Decidable (FewWrites s a) :=
  match a with
  | .load r =>
    match h : s.readers r with
    | .copying _ startedAt _ _ =>
      decidable_of_iff (s.started < startedAt + 2 ^ 63) (by simp only [FewWrites, h])
    | .idle | .attempt _ | .returned _ => isTrue (by simp only [FewWrites, h])
  | .write _ | .store | .read .. => isTrue trivial

/-! ## The version -/

theorem ofNat_and_one (k : Nat) : UInt64.ofNat k &&& 1 = 0 ↔ k % 2 = 0 := by
  rw [← UInt64.toNat_inj, UInt64.toNat_and, UInt64.toNat_ofNat']
  show k % 2 ^ 64 &&& 1 = 0 ↔ _
  rw [Nat.and_one_is_mod]
  omega

/-- The numbers that a version has are told apart within `2 ^ 64` steps. -/
theorem eq_of_ofNat_eq {k l : Nat} (h : UInt64.ofNat k = UInt64.ofNat l) (hle : k ≤ l)
    (hlt : l < k + 2 ^ 64) : k = l := by
  have hmod := congrArg UInt64.toNat h
  rw [UInt64.toNat_ofNat', UInt64.toNat_ofNat'] at hmod
  omega

/-! ## The invariant -/

/-- What a copy is worth: while no write was started since, it agrees with the last write. -/
def ReaderOk (initial : F → α) (s : State F α ι) : Reader F α → Prop
  | .copying v1 startedAt snapshot todo =>
    v1 &&& 1 = 0 → v1 = UInt64.ofNat (2 * startedAt) ∧ startedAt ≤ s.log.length ∧
      (s.started = startedAt → ∀ f, f ∉ todo → snapshot f = s.last initial f)
  | .idle | .attempt _ | .returned _ => True

structure Inv (initial : F → α) (s : State F α ι) : Prop where
  version : s.version = UInt64.ofNat (s.started + s.log.length)
  idle : s.writer = .idle → s.fields = s.last initial
  writing : ∀ values todo, s.writer = .writing values todo → ∀ f, f ∉ todo → s.fields f = values f
  readers : ∀ r, ReaderOk initial s (s.readers r)

variable {initial : F → α} {s t : State F α ι} {order : List F}

theorem started_of_idle (h : s.writer = .idle) : s.started = s.log.length := by
  rw [State.started, h]

theorem started_of_writing {values : F → α} {todo : List F} (h : s.writer = .writing values todo) :
    s.started = s.log.length + 1 := by
  rw [State.started, h]

theorem Reader.eq_of_result {reader : Reader F α} {snapshot : F → α}
    (h : reader.result = some snapshot) : reader = .returned snapshot := by
  cases reader with
  | idle | attempt _ | copying _ _ _ _ => cases h
  | returned _ => cases h; rfl

theorem log_le_started (s : State F α ι) : s.log.length ≤ s.started := by
  cases h : s.writer with
  | idle => exact (started_of_idle h).ge
  | writing values todo => exact (started_of_writing h).ge.trans' (Nat.le_succ _)

theorem idle_of_started_le (h : s.started ≤ s.log.length) : s.writer = .idle := by
  cases hw : s.writer with
  | idle => rfl
  | writing values todo =>
    rw [started_of_writing hw] at h
    omega

namespace Inv

theorem even_iff (h : Inv initial s) : s.version &&& 1 = 0 ↔ s.writer = .idle := by
  rw [h.version, ofNat_and_one]
  cases hw : s.writer with
  | idle =>
    rw [started_of_idle hw]
    exact iff_of_true (by omega) rfl
  | writing values todo =>
    rw [started_of_writing hw]
    exact iff_of_false (by omega) (by simp)

theorem init (initial : F → α) :
    Inv initial (⟨0, initial, .idle, fun _ => .idle, []⟩ : State F α ι) where
  version := rfl
  idle _ := rfl
  writing := by
    intro values todo h
    cases h
  readers _ := trivial

/-- Once a write is started, the copies made before it are not accepted any more. -/
theorem readerOk_of_started {reader : Reader F α} (h : ReaderOk initial s reader)
    (hlog : s.log.length ≤ t.log.length) (hstarted : s.log.length < t.started) :
    ReaderOk initial t reader := by
  cases reader with
  | idle | attempt _ | returned _ => trivial
  | copying v1 startedAt snapshot todo =>
    intro heven
    obtain ⟨hv1, hle, -⟩ := h heven
    refine ⟨hv1, hle.trans hlog, fun heq => ?_⟩
    omega

theorem write (h : Inv initial s) (horder : ∀ f, f ∈ order) (hw : s.writer = .idle)
    (values : F → α) :
    Inv initial { s with version := s.version + 1, writer := .writing values order } where
  version := by
    show s.version + 1 = UInt64.ofNat (s.log.length + 1 + s.log.length)
    rw [h.version, started_of_idle hw, Nat.add_right_comm, UInt64.ofNat_add (_ + _) 1]
    rfl
  idle := by
    intro hidle
    cases hidle
  writing := by
    intro values' todo hwriting f hf
    cases hwriting
    exact absurd (horder f) hf
  readers r := readerOk_of_started (h.readers r) (Nat.le_refl _) (Nat.lt_succ_self _)

theorem store [DecidableEq F] (h : Inv initial s) (hs : SeqLock.store s = some t) :
    Inv initial t := by
  simp only [SeqLock.store] at hs
  split at hs
  next => cases hs
  next values f todo hw =>
    cases hs
    have hstarted := started_of_writing hw
    refine ⟨?_, ?_, ?_, fun r => ?_⟩
    · show s.version = UInt64.ofNat (s.log.length + 1 + s.log.length)
      rw [h.version, hstarted]
    · intro hidle
      cases hidle
    · intro values' todo' hwriting g hg
      cases hwriting
      show Function.update s.fields f (values f) g = values g
      rcases eq_or_ne g f with rfl | hne
      · exact Function.update_self ..
      · rw [Function.update_of_ne hne]
        exact h.writing values (f :: todo) hw g (List.not_mem_cons_of_ne_of_not_mem hne hg)
    · exact readerOk_of_started (h.readers r) (Nat.le_refl _) (Nat.lt_succ_self _)
  next values hw =>
    cases hs
    refine ⟨?_, fun _ => ?_, ?_, fun r => ?_⟩
    · show s.version + 1 = UInt64.ofNat ((s.log ++ [values]).length + (s.log ++ [values]).length)
      rw [h.version, started_of_writing hw, List.length_append, List.length_singleton,
        ← Nat.add_assoc, UInt64.ofNat_add (_ + _) 1]
      rfl
    · show s.fields = (s.log ++ [values]).getLast?.getD initial
      rw [List.getLast?_concat, Option.getD_some]
      exact funext fun f => h.writing values [] hw f List.not_mem_nil
    · intro values' todo' hwriting
      cases hwriting
    · have hlength : (s.log ++ [values]).length = s.log.length + 1 := List.length_append
      refine readerOk_of_started (h.readers r) ?_ ?_
      · show s.log.length ≤ (s.log ++ [values]).length
        omega
      · show s.log.length < (s.log ++ [values]).length
        omega

theorem setReader [DecidableEq ι] (h : Inv initial s) {r : ι} {reader : Reader F α}
    (hreader : ReaderOk initial s reader) : Inv initial (setReader s r reader) where
  version := h.version
  idle := h.idle
  writing := h.writing
  readers r' := by
    show ReaderOk initial s (Function.update s.readers r reader r')
    rcases eq_or_ne r' r with rfl | hne
    · rwa [Function.update_self]
    · rw [Function.update_of_ne hne]
      exact h.readers r'

theorem load [DecidableEq F] (h : Inv initial s) (horder : ∀ f, f ∈ order)
    {reader reader' : Reader F α} (hreader : ReaderOk initial s reader)
    (hload : SeqLock.load order s reader = some reader') : ReaderOk initial s reader' := by
  cases reader with
  | idle | returned _ => cases hload
  | attempt snapshot =>
    cases hload
    intro heven
    -- nothing is being written
    have hidle := h.even_iff.mp heven
    have hstarted := started_of_idle hidle
    refine ⟨?_, hstarted.le, fun _ f hf => absurd (horder f) hf⟩
    rw [h.version, hstarted, Nat.two_mul]
  | copying v1 startedAt snapshot todo =>
    cases todo with
    | nil =>
      simp only [SeqLock.load] at hload
      split at hload <;> cases hload <;> trivial
    | cons f todo =>
      cases hload
      intro heven
      obtain ⟨hv1, hle, hcopied⟩ := hreader heven
      refine ⟨hv1, hle, fun hstarted g hg => ?_⟩
      rcases eq_or_ne g f with rfl | hne
      · rw [Function.update_self, h.idle (idle_of_started_le (hstarted.trans_le hle))]
      · rw [Function.update_of_ne hne]
        exact hcopied hstarted g (List.not_mem_cons_of_ne_of_not_mem hne hg)

theorem step [DecidableEq F] [DecidableEq ι] (h : Inv initial s) (horder : ∀ f, f ∈ order)
    {a : Action F α ι} (hs : (machine order initial).step s a = some t) : Inv initial t := by
  cases a with
  | write values =>
    simp only [machine] at hs
    split at hs
    next hw => cases hs; exact h.write horder hw values
    next => cases hs
  | store => exact h.store hs
  | read r snapshot =>
    simp only [machine] at hs
    split at hs <;> cases hs <;> exact h.setReader trivial
  | load r =>
    obtain ⟨reader, hreader, rfl⟩ := Option.map_eq_some_iff.mp hs
    exact h.setReader (h.load horder (h.readers r) hreader)

/-- When a read returns, it has the last completed write. -/
theorem returned [DecidableEq F] (h : Inv initial s) {r : ι} (hfew : FewWrites s (.load r))
    {snapshot : F → α} (hload : SeqLock.load order s (s.readers r) = some (.returned snapshot)) :
    snapshot = s.last initial := by
  have hok := h.readers r
  simp only [FewWrites] at hfew
  cases hr : s.readers r with
  | idle | attempt _ | returned _ => rw [hr] at hload; cases hload
  | copying v1 startedAt copy todo =>
    rw [hr] at hload hok hfew
    cases todo with
    | cons f todo => cases hload
    | nil =>
      simp only [SeqLock.load] at hload
      split at hload
      next => cases hload
      next hkeep =>
        cases hload
        obtain ⟨heven, hversion⟩ := not_or.mp hkeep
        obtain ⟨hv1, hle, hcopied⟩ := hok (not_not.mp heven)
        have hsame : UInt64.ofNat (2 * startedAt) = UInt64.ofNat (s.started + s.log.length) :=
          hv1.symm.trans ((not_not.mp hversion).trans h.version)
        have hlog := log_le_started s
        have hcount := eq_of_ofNat_eq hsame (by omega) (by omega)
        exact funext fun f => hcopied (by omega) f List.not_mem_nil

end Inv

/-- In every interleaving, a read returns the last write that is completed when it returns. -/
theorem returned_eq_last [DecidableEq F] [DecidableEq ι] (horder : ∀ f, f ∈ order)
    {as : List (Action F α ι)}
    (hs : (machine order initial).exec (machine order initial).init as = some s) {r : ι}
    (hfew : FewWrites s (.load r)) (ht : (machine order initial).step s (.load r) = some t)
    {snapshot : F → α} (hr : (t.readers r).result = some snapshot) :
    snapshot = s.last initial := by
  have hstep : ∀ (u : State F α ι) (a : Action F α ι) v, Inv initial u → True →
      (machine order initial).step u a = some v → Inv initial v :=
    fun u a v hu _ hv => hu.step horder hv
  have hinv : Inv initial s :=
    Machine.exec_invariant _ hstep (Inv.init initial) (Machine.along_true _) hs
  obtain ⟨reader, hreader, rfl⟩ := Option.map_eq_some_iff.mp ht
  have hreturned : reader = .returned snapshot := by
    rw [← Reader.eq_of_result hr]
    show reader = Function.update s.readers r reader r
    rw [Function.update_self]
  exact hinv.returned hfew (hreturned ▸ hreader)

end SeqLock

end Concurrency
