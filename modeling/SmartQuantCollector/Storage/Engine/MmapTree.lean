import SmartQuantCollector.Storage.Engine.MmapAppend
import SmartQuantCollector.Storage.Engine.MmapFileName

/-! # Engines in one file system

The engines of a process work on the files of one tree, each under the names that `MakeFileName`
gives it. An engine whose names are its own appends as an engine with files of its own does
(`Sees.append`), and leaves the files of the others. How often it rolls is bounded by what it has
written (`filled_append_le`). -/

namespace Sqc.MmapStorageEngine

/-- The files of the file system by name. -/
abbrev Tree := List UInt8 → File

/-- `output_path_` and `file_prefix_` of an engine. -/
structure Location where
  outputPath : List UInt8
  kind : EventKind

def Location.name (loc : Location) (sequence : Nat) : List UInt8 :=
  makeFileName loc.outputPath loc.kind sequence

/-- The engine with the files that are found under its names. -/
def State.on (s : State) (tree : Tree) (loc : Location) : State :=
  { s with disk := files tree loc.outputPath loc.kind }

/-- The file that an engine has mapped is the one under its name. -/
def State.store (t : State) (tree : Tree) (loc : Location) : Tree :=
  Function.update tree (loc.name t.sequence) t.current

/-- The next operation of an engine in a tree. -/
def stepIn (cfg : Config) (loc : Location) (tree : Tree) (s : State) : Option (Tree × State) :=
  (step cfg (s.on tree loc) true).map fun t => (t.store tree loc, t)

def settleIn (cfg : Config) (loc : Location) : Nat → Tree × State → Option (Tree × State)
  | 0, p => if AtRest p.2 then some p else none
  | n + 1, p =>
    if AtRest p.2 then some p else (stepIn cfg loc p.1 p.2).bind (settleIn cfg loc n)

def appendIn (cfg : Config) (loc : Location) (tree : Tree) (s : State)
    (calls : List (List UInt8)) : Option (Tree × State) :=
  (start s calls).bind fun s => settleIn cfg loc (4 * calls.length) (tree, s)

/-- `OpenOrCreate` of a new engine. -/
def openIn (tree : Tree) (loc : Location) : Tree × State :=
  let s := opened (files tree loc.outputPath loc.kind)
  (s.store tree loc, s)

/-! ## An engine with files of its own -/

variable {cfg : Config} {s t : State}

/-- An operation changes no file but the current one. -/
theorem step_disk {mapped : Bool} (h : step cfg s mapped = some t) :
    t.disk = Function.update s.disk t.sequence t.current := by
  cases step_effect h with
  | returns | rollFails | rolls | fits => exact (Function.update_eq_self _ _).symm
  | resets | copies | publishes =>
    refine congrArg (Function.update s.disk s.sequence) ?_
    exact (setCurrent_current s _).symm

theorem sequence_le_of_step {mapped : Bool} (h : step cfg s mapped = some t) :
    s.sequence ≤ t.sequence := by
  cases step_effect h with
  | rollFails | rolls => exact Nat.le_succ _
  | returns | fits | resets | copies | publishes => exact Nat.le_refl _

/-- An operation reads no file but the current one. -/
theorem step_congr {d : Nat → File} (h : step cfg s true = some t)
    (hd : ∀ n ≤ t.sequence, d n = s.disk n) :
    step cfg { s with disk := d } true =
      some { t with disk := Function.update d t.sequence t.current } := by
  have hcurrent : d s.sequence = s.disk s.sequence := hd _ (sequence_le_of_step h)
  have hsame : Function.update d s.sequence (s.disk s.sequence) = d := by
    rw [← hcurrent, Function.update_eq_self]
  obtain ⟨disk, sequence, isOpen, offset, calls, stage⟩ := s
  match stage, calls with
  | .reset, calls =>
    cases h
    simp only [step, State.resetHeader, State.setCurrent, State.current, Function.update_self,
      hcurrent]
  | .test, bytes :: rest =>
    simp only [step, NeedsRoll, if_true] at h ⊢
    split at h
    next hreturn =>
      cases h
      simp only [if_pos hreturn, State.current, hsame]
    next hgo =>
      rw [if_neg hgo]
      split at h
      next hroll =>
        cases h
        have hnext : d (sequence + 1) = disk (sequence + 1) := hd _ (Nat.le_refl _)
        simp only [if_pos hroll, State.current, ← hnext, Function.update_eq_self]
      next hfits =>
        cases h
        simp only [if_neg hfits, State.current, hsame]
  | .copy, bytes :: rest =>
    simp only [step] at h ⊢
    split at h
    next hfit =>
      cases h
      simp only [if_pos hfit, State.copyBytes, State.setCurrent, State.current,
        Function.update_self, hcurrent]
    next => cases h
  | .publish, bytes :: rest =>
    cases h
    simp only [step, State.publishBytes, State.setCurrent, State.current, Function.update_self,
      hcurrent]
  | .test, [] | .copy, [] | .publish, [] => cases h

/-- The engine `s` with files of its own is what the engine in a tree makes of the files under its
names. -/
structure Sees (loc : Location) (tree : Tree) (e s : State) : Prop where
  same : e = { s with disk := e.disk }
  disk : ∀ n ≤ kMaxSequence, tree (loc.name n) = s.disk n

/-- The names of an engine are different from each other. -/
def Location.Distinct (loc : Location) : Prop :=
  ∀ m ≤ kMaxSequence, ∀ n ≤ kMaxSequence, loc.name m = loc.name n → m = n

/-- No files are changed but those under the names of the engine. -/
def OnlyAt (loc : Location) (tree tree' : Tree) : Prop :=
  ∀ name, (∀ n ≤ kMaxSequence, name ≠ loc.name n) → tree' name = tree name

theorem OnlyAt.trans {loc : Location} {tree tree' tree'' : Tree} (h : OnlyAt loc tree tree')
    (h' : OnlyAt loc tree' tree'') : OnlyAt loc tree tree'' :=
  fun name hname => (h' name hname).trans (h name hname)

variable {loc : Location} {tree : Tree} {e : State} {n : Nat} {calls : List (List UInt8)}

theorem Sees.step (h : Sees loc tree e s) (hdistinct : loc.Distinct)
    (hstep : step cfg s true = some t) (hle : t.sequence ≤ kMaxSequence) :
    ∃ tree' e', stepIn cfg loc tree e = some (tree', e') ∧ Sees loc tree' e' t ∧
      OnlyAt loc tree tree' := by
  have hview : MmapStorageEngine.step cfg (e.on tree loc) true = some { t with
      disk := Function.update (files tree loc.outputPath loc.kind) t.sequence t.current } := by
    have hon : e.on tree loc = { s with disk := files tree loc.outputPath loc.kind } := by
      rw [State.on, h.same]
    rw [hon]
    exact step_congr hstep fun n hn => h.disk n (hn.trans hle)
  refine ⟨_, _, by rw [stepIn, hview, Option.map_some], ⟨rfl, fun n hn => ?_⟩,
    fun name hname => Function.update_of_ne (hname _ hle) _ _⟩
  simp only [State.store, State.current, Function.update_self]
  rw [step_disk hstep]
  rcases eq_or_ne n t.sequence with rfl | hne
  · rw [Function.update_self, Function.update_self]
  · rw [Function.update_of_ne hne, Function.update_of_ne fun heq => hne (hdistinct n hn _ hle heq)]
    exact h.disk n hn

/-- What every operation keeps holds when the engine is at rest again. -/
theorem settle_invariant {I : State → Prop}
    (hI : ∀ s t, I s → step cfg s true = some t → I t) (hs : I s)
    (h : settle cfg n s = some t) : I t := by
  induction n generalizing s with
  | zero =>
    simp only [settle, Option.ite_none_right_eq_some, Option.some.injEq] at h
    exact h.2 ▸ hs
  | succ n ih =>
    rw [settle] at h
    split at h
    · cases h
      exact hs
    · obtain ⟨u, hu, h⟩ := Option.bind_eq_some_iff.mp h
      exact ih (hI s u hs hu) h

theorem sequence_le_of_settle (h : settle cfg n s = some t) : s.sequence ≤ t.sequence :=
  settle_invariant (I := fun u => s.sequence ≤ u.sequence)
    (fun _ _ hle hu => hle.trans (sequence_le_of_step hu)) (Nat.le_refl _) h

theorem Sees.atRest_iff (h : Sees loc tree e s) : AtRest e ↔ AtRest s := by
  rw [h.same]
  rfl

theorem Sees.settle (h : Sees loc tree e s) (hdistinct : loc.Distinct)
    (hs : settle cfg n s = some t) (hle : t.sequence ≤ kMaxSequence) :
    ∃ tree' e', settleIn cfg loc n (tree, e) = some (tree', e') ∧ Sees loc tree' e' t ∧
      OnlyAt loc tree tree' := by
  induction n generalizing s tree e with
  | zero =>
    simp only [MmapStorageEngine.settle, Option.ite_none_right_eq_some, Option.some.injEq] at hs
    obtain ⟨hrest, rfl⟩ := hs
    exact ⟨tree, e, if_pos (h.atRest_iff.mpr hrest), h, fun _ _ => rfl⟩
  | succ n ih =>
    rw [MmapStorageEngine.settle] at hs
    split at hs
    next hrest =>
      cases hs
      exact ⟨tree, e, if_pos (h.atRest_iff.mpr hrest), h, fun _ _ => rfl⟩
    next hrest =>
      obtain ⟨u, hu, hs⟩ := Option.bind_eq_some_iff.mp hs
      obtain ⟨tree', e', hstep, hsees, honly⟩ :=
        h.step hdistinct hu ((sequence_le_of_settle hs).trans hle)
      obtain ⟨tree'', e'', hsettle, hsees', honly'⟩ := ih hsees hs
      refine ⟨tree'', e'', ?_, hsees', honly.trans honly'⟩
      rw [settleIn, if_neg (mt h.atRest_iff.mp hrest), hstep, Option.bind_some, hsettle]

/-- An engine whose names are its own appends as one with files of its own. -/
theorem Sees.append (h : Sees loc tree e s) (hdistinct : loc.Distinct)
    (hs : append cfg s calls = some t) (hle : t.sequence ≤ kMaxSequence) :
    ∃ tree' e', appendIn cfg loc tree e calls = some (tree', e') ∧ Sees loc tree' e' t ∧
      OnlyAt loc tree tree' := by
  obtain ⟨u, hu, hs⟩ := Option.bind_eq_some_iff.mp hs
  simp only [start, Option.ite_none_right_eq_some, Option.some.injEq] at hu
  obtain ⟨hidle, rfl⟩ := hu
  have hstart : start e calls = some { e with calls := calls } :=
    if_pos (h.atRest_iff.mpr hidle)
  have hsees : Sees loc tree { e with calls := calls } { s with calls := calls } :=
    ⟨by rw [h.same], h.disk⟩
  rw [appendIn, hstart, Option.bind_some]
  exact hsees.settle hdistinct hs hle

/-! ## How much is written -/

/-- What the engine has written and is about to write, each file that it has left counted with what
is in it at least when no call has more than `limit` bytes. -/
def filled (maxFileSize limit : Nat) (s : State) : Nat :=
  s.sequence * (maxFileSize - kHeaderSize - limit) +
    ((if s.stage = .reset then kHeaderSize else s.offset) - kHeaderSize) +
    (s.calls.map List.length).sum

theorem isOpen_of_step (h : step cfg s true = some t) : t.isOpen = s.isOpen := by
  unfold step at h
  repeat' split at h
  all_goals first
    | contradiction
    | cases h; rfl

/-- Before a roll the current file has as much as a file that was left. -/
theorem filled_step_le {limit : Nat} (h : step cfg s true = some t)
    (hcalls : ∀ bytes ∈ s.calls, bytes.length ≤ limit) :
    filled cfg.maxFileSize limit t ≤ filled cfg.maxFileSize limit s ∧
      ∀ bytes ∈ t.calls, bytes.length ≤ limit := by
  have hopen := isOpen_of_step h
  cases step_effect h with
  | rollFails _ _ hwas _ _ => cases hopen.trans hwas
  | @returns bytes rest hstage hs _ =>
    rw [hs] at hcalls
    refine ⟨?_, (List.forall_mem_cons.mp hcalls).2⟩
    simp only [filled, hs, List.map_cons, List.sum_cons]
    omega
  | @rolls bytes rest hstage hs _ _ hroll =>
    have hle := hcalls bytes (hs ▸ List.mem_cons_self)
    have hneeds : cfg.maxFileSize ≤ s.offset + bytes.length := hroll
    refine ⟨?_, hcalls⟩
    simp only [filled, hstage, if_true, reduceCtorEq, if_false, Nat.add_mul, Nat.one_mul]
    omega
  | fits hstage _ _ _ _ =>
    refine ⟨Nat.le_of_eq ?_, hcalls⟩
    simp only [filled, hstage, reduceCtorEq, if_false]
  | resets hstage =>
    refine ⟨?_, hcalls⟩
    simp only [filled, hstage, State.resetHeader, if_true]
    split <;> exact Nat.le_refl _
  | @copies bytes rest hstage _ =>
    refine ⟨Nat.le_of_eq ?_, hcalls⟩
    simp only [filled, hstage, State.copyBytes, reduceCtorEq, if_false]
  | @publishes bytes rest hstage hs =>
    rw [hs] at hcalls
    refine ⟨?_, (List.forall_mem_cons.mp hcalls).2⟩
    simp only [filled, hstage, hs, State.publishBytes, reduceCtorEq, if_false, List.map_cons,
      List.sum_cons]
    omega

theorem filled_settle_le {limit : Nat} (h : settle cfg n s = some t)
    (hcalls : ∀ bytes ∈ s.calls, bytes.length ≤ limit) :
    filled cfg.maxFileSize limit t ≤ filled cfg.maxFileSize limit s := by
  have hall := settle_invariant
    (I := fun u => filled cfg.maxFileSize limit u ≤ filled cfg.maxFileSize limit s ∧
      ∀ bytes ∈ u.calls, bytes.length ≤ limit)
    (fun u v hu hstep => (filled_step_le hstep hu.2).imp_left (·.trans hu.1))
    ⟨Nat.le_refl _, hcalls⟩ h
  exact hall.1

theorem filled_append_le {limit : Nat} (h : append cfg s calls = some t)
    (hcalls : ∀ bytes ∈ calls, bytes.length ≤ limit) :
    filled cfg.maxFileSize limit t ≤
      filled cfg.maxFileSize limit s + (calls.map List.length).sum := by
  obtain ⟨u, hu, hs⟩ := Option.bind_eq_some_iff.mp h
  simp only [start, Option.ite_none_right_eq_some, Option.some.injEq] at hu
  obtain ⟨hidle, rfl⟩ := hu
  refine (filled_settle_le hs hcalls).trans (Nat.le_of_eq ?_)
  simp only [filled, hidle.2, List.map_nil, List.sum_nil]
  rfl

end Sqc.MmapStorageEngine
