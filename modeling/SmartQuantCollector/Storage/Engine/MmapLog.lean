import Mathlib.Data.List.Flatten
import SmartQuantCollector.Storage.Engine.MmapAppend
import SmartQuantCollector.Storage.RecordLayout

/-! # The mmap engine as a log

An engine over a fresh directory whose system calls succeed, looked at after every operation of
every sequence of calls. The payloads of its files, in the order of their sequence numbers, are the
bytes of the calls, in the order of the calls (`State.log`). `isLog_of_exec` says this together with
where the bytes go and when a new file is begun. The offset stays below the maximum size of a file
unless that is so small that no call has room (`opened_offset_not_lt`). -/

namespace Sqc
open Concurrency

namespace MmapStorageEngine

/-- A null pointer with a size appends as little as an empty block. -/
inductive AppendCall where
  | appendRecord (tick : TickData) (storageTarget : UInt32) (pad : Vector UInt8 4)
      (tail : List UInt8)
  | appendRaw (data : List UInt8)

/-- The bytes that the call appends. -/
def AppendCall.bytes : AppendCall → List UInt8
  | appendRecord tick storageTarget pad tail => tickEnvelopeBytes tick storageTarget pad tail
  | appendRaw data => data

inductive LogAction where
  | call (c : AppendCall)
  /-- The next operation of the call in progress. -/
  | run

/-- `ftruncate` takes the length of the mapping as a signed 64-bit number. -/
structure Config.Mappable (cfg : Config) : Prop where
  pageSize_pos : 0 < cfg.pageSize
  mmapSize_lt : cfg.mmapSize < 2 ^ 63

/-- An engine over a fresh directory, with every system call succeeding. -/
def logMachine (cfg : Config) : Machine State LogAction where
  init := opened fun _ => .zero
  step s
    | .call c => start s [c.bytes]
    | .run => step cfg s true

/-- The byte strings of the calls of a schedule. -/
def appended (as : List LogAction) : List (List UInt8) :=
  as.filterMap fun
    | .call c => some c.bytes
    | .run => none

/-- The payloads of the files, in the order of their sequence numbers. -/
def State.log (s : State) : List UInt8 := (List.range (s.sequence + 1)).flatMap s.payload

/-- What holds after every operation, `calls` being the calls made so far. -/
structure IsLog (cfg : Config) (calls : List (List UInt8)) (s : State) : Prop where
  /-- A file that was mapped just now has not got its header yet. -/
  offset_eq : s.stage ≠ .reset → s.current.writeOffset = s.offset
  offset_ge : kHeaderSize ≤ s.offset
  /-- Without a call the files may be too small for anything. -/
  offset_lt : s.offset < cfg.maxFileSize ∨ calls = [] ∧ cfg.maxFileSize ≤ kHeaderSize
  /-- The sum in the test of `AppendRaw` does not wrap. -/
  test : ∀ bytes rest, s.calls = bytes :: rest →
    (UInt64.ofNat cfg.maxFileSize ≤ UInt64.ofNat s.offset + UInt64.ofNat bytes.length ↔
      NeedsRoll cfg s bytes)
  /-- The bytes of a call go to one file, between its header and its end. -/
  copy : s.stage = .copy ∨ s.stage = .publish → ∀ bytes rest, s.calls = bytes :: rest →
    s.offset + bytes.length < cfg.maxFileSize
  log : s.log ++ s.calls.flatten = calls.flatten

/-- What an operation may change. -/
structure LogStep (cfg : Config) (s t : State) : Prop where
  written : ∀ n i, (t.disk n).data i ≠ (s.disk n).data i →
    n = s.sequence ∧ kHeaderSize ≤ i ∧ i < cfg.maxFileSize
  roll : t.sequence ≠ s.sequence → t.sequence = s.sequence + 1 ∧ t.disk = s.disk ∧
    ∃ bytes rest, s.calls = bytes :: rest ∧ NeedsRoll cfg s bytes
  earlier : ∀ n < s.sequence, t.disk n = s.disk n

variable {cfg : Config} {s t : State}

/-! ## The payloads -/

theorem State.log_eq (s : State) :
    s.log = (List.range s.sequence).flatMap s.payload ++ s.payload s.sequence := by
  rw [log, List.range_succ, List.flatMap_append, List.flatMap_singleton]

theorem State.log_update {p : List UInt8}
    (hpayload : t.payload = Function.update s.payload s.sequence p)
    (hseq : t.sequence = s.sequence) :
    t.log = (List.range s.sequence).flatMap s.payload ++ p := by
  rw [log_eq, hseq, hpayload, Function.update_self]
  congr 1
  refine List.flatMap_congr fun n hn => ?_
  rw [Function.update_of_ne (List.mem_range.mp hn).ne]

theorem payload_zero : File.zero.payload = [] := rfl

theorem log_rolled (h : s.disk (s.sequence + 1) = .zero) : s.rolled.log = s.log := by
  have hpayload : s.rolled.payload s.rolled.sequence = [] := by
    show (s.disk (s.sequence + 1)).payload = []
    rw [h, payload_zero]
  rw [State.log_eq, hpayload, List.append_nil]
  rfl

theorem log_resetHeader (h : s.current = .zero) : s.resetHeader.log = s.log := by
  have hpayload : s.payload s.sequence = [] := by
    show s.current.payload = []
    rw [h, payload_zero]
  rw [State.log_update (payload_resetHeader s) rfl, State.log_eq, hpayload]

theorem log_copyBytes (h : Ok s) (hstage : s.stage = .copy) (bytes : List UInt8) :
    (s.copyBytes bytes).log = s.log := by
  rw [State.log, h.payload_copyBytes hstage]
  rfl

theorem log_publishBytes (h : Ok s) {bytes : List UInt8} {rest : List (List UInt8)}
    (hstage : s.stage = .publish) (hcalls : s.calls = bytes :: rest) :
    (s.publishBytes bytes rest).log = s.log ++ bytes := by
  rw [State.log_update (h.payload_publishBytes hstage hcalls) rfl, State.log_eq, List.append_assoc]

/-! ## The bytes -/

theorem File.data_write_ne {f : File} {offset i : Nat} {bytes : List UInt8}
    (h : (f.write offset bytes).data i ≠ f.data i) : offset ≤ i ∧ i < offset + bytes.length := by
  simp only [write] at h
  split at h
  next hge =>
    by_contra hlt
    have hnone : bytes[i - offset]? = none := List.getElem?_eq_none (by omega)
    rw [hnone] at h
    exact h rfl
  next => exact absurd rfl h

theorem data_setCurrent_ne {f : File} {n i : Nat}
    (h : (s.setCurrent f n).data i ≠ (s.disk n).data i) :
    n = s.sequence ∧ f.data i ≠ s.current.data i := by
  rcases eq_or_ne n s.sequence with rfl | hn
  · rw [setCurrent_current] at h
    exact ⟨rfl, h⟩
  · rw [State.setCurrent, Function.update_of_ne hn] at h
    exact absurd rfl h

/-! ## The invariant -/

/-- What the engine keeps from one operation to the next. -/
structure LogInv (cfg : Config) (calls : List (List UInt8)) (s : State) : Prop where
  ok : Ok s
  isOpen : s.isOpen = true
  fresh : ∀ n, s.sequence < n → s.disk n = .zero
  mapped : s.stage = .reset → s.current = .zero
  fits : ∀ bytes ∈ s.calls, kHeaderSize + bytes.length < cfg.maxFileSize
  offset_ge : kHeaderSize ≤ s.offset
  offset_lt : s.offset < cfg.maxFileSize ∨ calls = [] ∧ cfg.maxFileSize ≤ kHeaderSize
  copy : s.stage = .copy ∨ s.stage = .publish → ∀ bytes rest, s.calls = bytes :: rest →
    s.offset + bytes.length < cfg.maxFileSize
  log : s.log ++ s.calls.flatten = calls.flatten

/-- With room for every call and a mapping that the system accepts, 64 bits are enough. -/
theorem test_iff (h : cfg.Mappable) {offset n : Nat} (hoffset : offset < cfg.maxFileSize)
    (hn : n < cfg.maxFileSize) :
    UInt64.ofNat cfg.maxFileSize ≤ UInt64.ofNat offset + UInt64.ofNat n ↔
      cfg.maxFileSize ≤ offset + n := by
  have hsize := Config.maxFileSize_le_mmapSize h.pageSize_pos
  have hlt := h.mmapSize_lt
  have hword : UInt64.size = 2 ^ 64 := rfl
  rw [← UInt64.ofNat_add, UInt64.le_iff_toNat_le, UInt64.toNat_ofNat_of_lt' (by omega),
    UInt64.toNat_ofNat_of_lt' (by omega)]

namespace LogInv

variable {calls : List (List UInt8)}

theorem init (cfg : Config) : LogInv cfg [] (logMachine cfg).init where
  ok := (calling_opened cfg _).ok
  isOpen := rfl
  fresh n hn := Function.update_of_ne (Nat.ne_of_gt hn) ..
  mapped hreset := by cases hreset
  fits := List.forall_mem_nil _
  offset_ge := Nat.le_refl _
  offset_lt := (Nat.lt_or_ge kHeaderSize cfg.maxFileSize).imp_right fun h => ⟨rfl, h⟩
  copy := by rintro (h | h) <;> cases h
  log := rfl

theorem call {c : AppendCall} (h : LogInv cfg calls s)
    (hfits : kHeaderSize + c.bytes.length < cfg.maxFileSize)
    (hs : start s [c.bytes] = some t) : LogInv cfg (calls ++ [c.bytes]) t := by
  obtain ⟨hstage, hcalls, rfl, hok⟩ := h.ok.start hs
  have hlog := h.log
  rw [hcalls, List.flatten_nil, List.append_nil] at hlog
  refine ⟨hok, h.isOpen, h.fresh, h.mapped, ?_, h.offset_ge, .inl ?_, ?_, ?_⟩
  · exact List.forall_mem_singleton.mpr hfits
  · rcases h.offset_lt with hlt | ⟨-, hle⟩
    · exact hlt
    · omega
  · rintro (hcopy | hpublish)
    · cases hstage.symm.trans hcopy
    · cases hstage.symm.trans hpublish
  · show s.log ++ [c.bytes].flatten = (calls ++ [c.bytes]).flatten
    rw [hlog, List.flatten_append]

/-- The engine stays open when every file can be mapped. -/
theorem isOpen_step (hs : step cfg s true = some t) : t.isOpen = s.isOpen := by
  unfold step at hs
  split at hs
  · cases hs; rfl
  · simp only [if_true] at hs
    repeat' split at hs
    all_goals cases hs; rfl
  · split at hs <;> cases hs
    rfl
  · cases hs; rfl
  · cases hs

theorem run (h : LogInv cfg calls s) (hs : step cfg s true = some t) : LogInv cfg calls t := by
  have hopen : t.isOpen = true := (isOpen_step hs).trans h.isOpen
  have hok : Ok t := (step_effect hs).ok h.ok
  have hlog := h.log
  have hfits := h.fits
  cases step_effect hs with
  | @returns bytes rest hstage hcalls hreturn =>
    rcases hreturn with hclosed | rfl
    · cases hclosed.symm.trans h.isOpen
    rw [hcalls] at hlog hfits
    refine ⟨hok, hopen, h.fresh, h.mapped, ?_, h.offset_ge, h.offset_lt, ?_, hlog⟩
    · exact (List.forall_mem_cons.mp hfits).2
    · rintro (hcopy | hpublish)
      · cases hstage.symm.trans hcopy
      · cases hstage.symm.trans hpublish
  | rollFails _ _ _ _ _ => cases hopen
  | @rolls bytes rest hstage hcalls _ _ hroll =>
    have hzero := h.fresh (s.sequence + 1) (Nat.lt_succ_self _)
    refine ⟨hok, hopen, fun n hn => h.fresh n (Nat.lt_of_succ_lt hn), fun _ => hzero, hfits,
      h.offset_ge, h.offset_lt, ?_, ?_⟩
    · rintro (hcopy | hpublish)
      · cases hcopy
      · cases hpublish
    · exact (log_rolled hzero).symm ▸ hlog
  | @fits bytes rest hstage hcalls _ _ hroll =>
    refine ⟨hok, hopen, h.fresh, ?_, hfits, h.offset_ge, h.offset_lt, ?_, hlog⟩
    · intro hreset
      cases hreset
    · intro _ bytes' rest' hcalls'
      cases hcalls.symm.trans hcalls'
      exact Nat.lt_of_not_le hroll
  | resets hstage =>
    have hzero := h.mapped hstage
    refine ⟨hok, hopen, fun n hn => ?_, ?_, hfits, Nat.le_refl _, ?_, ?_, ?_⟩
    · exact (Function.update_of_ne (Nat.ne_of_gt hn) ..).trans (h.fresh n hn)
    · simp only [State.resetHeader]
      split <;> (intro hreset; cases hreset)
    · exact h.offset_lt.imp_left (h.offset_ge.trans_lt ·)
    · rintro - bytes rest hcalls
      exact hfits bytes (hcalls ▸ List.mem_cons_self)
    · exact (log_resetHeader hzero).symm ▸ hlog
  | @copies bytes rest hstage hcalls =>
    refine ⟨hok, hopen, fun n hn => ?_, ?_, hfits, h.offset_ge, h.offset_lt, ?_, ?_⟩
    · exact (Function.update_of_ne (Nat.ne_of_gt hn) ..).trans (h.fresh n hn)
    · intro hreset
      cases hreset
    · exact fun _ => h.copy (.inl hstage)
    · exact (log_copyBytes h.ok hstage bytes).symm ▸ hlog
  | @publishes bytes rest hstage hcalls =>
    rw [hcalls] at hlog hfits
    have hlt := h.copy (.inr hstage) bytes rest hcalls
    refine ⟨hok, hopen, fun n hn => ?_, ?_, ?_, ?_, .inl hlt, ?_, ?_⟩
    · exact (Function.update_of_ne (Nat.ne_of_gt hn) ..).trans (h.fresh n hn)
    · intro hreset
      cases hreset
    · exact (List.forall_mem_cons.mp hfits).2
    · exact h.offset_ge.trans (Nat.le_add_right _ _)
    · rintro (hcopy | hpublish)
      · cases hcopy
      · cases hpublish
    · rw [log_publishBytes h.ok hstage hcalls, List.append_assoc]
      exact hlog

theorem isLog (h : LogInv cfg calls s) (hcfg : cfg.Mappable) : IsLog cfg calls s where
  offset_eq hstage := (h.ok.current h.isOpen hstage).1
  offset_ge := h.offset_ge
  offset_lt := h.offset_lt
  test bytes rest hcalls := by
    have hfit := h.fits bytes (hcalls ▸ List.mem_cons_self)
    rcases h.offset_lt with hlt | ⟨-, hle⟩
    · exact test_iff hcfg hlt (by omega)
    · omega
  copy := h.copy
  log := h.log

theorem logStep (h : LogInv cfg calls s) (hs : step cfg s true = some t) : LogStep cfg s t := by
  cases step_effect hs with
  | returns _ _ _ | fits _ _ _ _ _ =>
    exact ⟨fun n i hne => absurd rfl hne, fun hne => absurd rfl hne, fun _ _ => rfl⟩
  | @rollFails bytes rest _ hcalls _ _ hroll | @rolls bytes rest _ hcalls _ _ hroll =>
    exact ⟨fun n i hne => absurd rfl hne, fun _ => ⟨rfl, rfl, bytes, rest, hcalls, hroll⟩,
      fun _ _ => rfl⟩
  | resets _ =>
    refine ⟨fun n i hne => ?_, fun hne => absurd rfl hne, fun n hn => ?_⟩
    · exact absurd rfl (data_setCurrent_ne hne).2
    · exact Function.update_of_ne hn.ne ..
  | @copies bytes rest hstage hcalls =>
    refine ⟨fun n i hne => ?_, fun hne => absurd rfl hne, fun n hn => ?_⟩
    · obtain ⟨hn, hne⟩ := data_setCurrent_ne hne
      obtain ⟨hge, hlt⟩ := File.data_write_ne hne
      exact ⟨hn, h.offset_ge.trans hge, hlt.trans (h.copy (.inl hstage) bytes rest hcalls)⟩
    · exact Function.update_of_ne hn.ne ..
  | publishes _ _ =>
    refine ⟨fun n i hne => ?_, fun hne => absurd rfl hne, fun n hn => ?_⟩
    · exact absurd rfl (data_setCurrent_ne hne).2
    · exact Function.update_of_ne hn.ne ..

/-- A call in progress is not stuck: no operation leaves the mapping. -/
theorem progress (h : LogInv cfg calls s) (hcfg : cfg.Mappable) (hcalls : s.calls ≠ []) :
    ∃ t, step cfg s true = some t := by
  obtain ⟨bytes, rest, hcalls⟩ := List.exists_cons_of_ne_nil hcalls
  cases hstage : s.stage with
  | test =>
    simp only [step, hstage, hcalls, if_true]
    split
    · exact ⟨_, rfl⟩
    · split
      · exact ⟨_, rfl⟩
      · exact ⟨_, rfl⟩
  | reset => exact ⟨s.resetHeader, by simp only [step, hstage]⟩
  | copy =>
    have hfit : s.offset + bytes.length ≤ cfg.mmapSize :=
      (h.copy (.inl hstage) bytes rest hcalls).le.trans
        (Config.maxFileSize_le_mmapSize hcfg.pageSize_pos)
    exact ⟨s.copyBytes bytes, by simp only [step, hstage, hcalls, if_pos hfit]⟩
  | publish => exact ⟨s.publishBytes bytes rest, by simp only [step, hstage, hcalls]⟩

end LogInv

/-! ## Runs -/

theorem appended_append (as bs : List LogAction) :
    appended (as ++ bs) = appended as ++ appended bs := List.filterMap_append

theorem exec_logInv {as : List LogAction}
    (hfits : ∀ c, .call c ∈ as → kHeaderSize + c.bytes.length < cfg.maxFileSize)
    (hs : (logMachine cfg).exec (logMachine cfg).init as = some s) :
    LogInv cfg (appended as) s := by
  have hstep : ∀ bs u a v, LogInv cfg (appended bs) u →
      (∀ c, a = .call c → kHeaderSize + c.bytes.length < cfg.maxFileSize) →
      (logMachine cfg).step u a = some v → LogInv cfg (appended (bs ++ [a])) v := by
    intro bs u a v hu hfit hv
    rw [appended_append]
    cases a with
    | call c => exact hu.call (hfit c rfl) hv
    | run => exact (List.append_nil (appended bs)).symm ▸ hu.run hv
  have halong : (logMachine cfg).Along
      (fun _ a => ∀ c, a = .call c → kHeaderSize + c.bytes.length < cfg.maxFileSize)
      (logMachine cfg).init as := by
    refine (logMachine cfg).along_of_forall fun a ha c hc => ?_
    exact hfits c (hc ▸ ha)
  have hinit : LogInv cfg (appended []) (logMachine cfg).init := LogInv.init cfg
  exact (logMachine cfg).exec_history (R := fun bs => LogInv cfg (appended bs)) hstep hinit halong
    hs

/-- A file smaller than its header: the engine opens it and has its offset beyond the end. -/
theorem opened_offset_not_lt :
    Config.Mappable ⟨10, 4096⟩ ∧
      ∃ s, (logMachine ⟨10, 4096⟩).exec (logMachine ⟨10, 4096⟩).init [] = some s ∧
        s.current.writeOffset = 64 ∧ ¬ s.offset < 10 :=
  ⟨⟨by decide, by decide⟩, _, rfl, rfl, by decide⟩

/-- After every operation of every sequence of calls for which a file has room: the files hold the
bytes of the calls in order, each call in one file behind its header, a new file is begun only when
a call does not fit, and no call is stuck. -/
theorem isLog_of_exec (cfg : Config) (hcfg : cfg.Mappable) (as : List LogAction)
    (hfits : ∀ c, .call c ∈ as → kHeaderSize + c.bytes.length < cfg.maxFileSize) (s : State)
    (hs : (logMachine cfg).exec (logMachine cfg).init as = some s) :
    IsLog cfg (appended as) s ∧ (∀ t, step cfg s true = some t → LogStep cfg s t) ∧
      (s.calls ≠ [] → ∃ t, step cfg s true = some t) := by
  have hinv := exec_logInv hfits hs
  exact ⟨hinv.isLog hcfg, fun t ht => hinv.logStep ht, hinv.progress hcfg⟩

/-- Files of 70 bytes take one call of three bytes: with the second one the sum is 70. -/
def twoCalls : List LogAction :=
  [.call (.appendRaw [1, 2, 3]), .run, .run, .run, .call (.appendRaw [4, 5, 6]), .run, .run, .run,
    .run]

theorem twoCalls_isLog :
    ∃ s, (logMachine ⟨70, 4096⟩).exec (logMachine ⟨70, 4096⟩).init twoCalls = some s ∧
      s.sequence = 1 ∧ s.offset = 67 ∧ s.calls = [] ∧
      IsLog ⟨70, 4096⟩ [[1, 2, 3], [4, 5, 6]] s := by
  have hrun : ((logMachine ⟨70, 4096⟩).exec (logMachine ⟨70, 4096⟩).init twoCalls).map
      (fun s => (s.sequence, s.offset, s.calls)) = some (1, 67, []) := by decide
  obtain ⟨s, hs, hfigures⟩ := Option.map_eq_some_iff.mp hrun
  simp only [Prod.mk.injEq] at hfigures
  refine ⟨s, hs, hfigures.1, hfigures.2.1, hfigures.2.2, ?_⟩
  refine (isLog_of_exec ⟨70, 4096⟩ ⟨by decide, by decide⟩ twoCalls (fun c hc => ?_) s hs).1
  have hcases : c = .appendRaw [1, 2, 3] ∨ c = .appendRaw [4, 5, 6] := by simpa [twoCalls] using hc
  rcases hcases with rfl | rfl
  · decide
  · decide

end MmapStorageEngine
end Sqc
