import SmartQuantCollector.Lib.Machine
import Mathlib.Data.UInt

/-! # `RithmicProcessManager` (`src/exchange/rithmic/rithmic_process_manager.cpp`)

The parent's side of the gateway process: what `CheckHealth` and `Shutdown` do to `child_pid_`, and
the parts of the world they read, i.e. the process table, `ShmHeader::heartbeat_ns` and the
monotonic clock. Each definition below is one of the pieces of `CheckHealth` that run without
interruption (a section under `child_mtx_`, or the computation between two of them); the modules
that follow put them together.

A pid stands for a process of the table. A child keeps the time at which it was spawned and the
time of its last heartbeat, which only the statements below read; a pid that has been reaped may be
given to a foreign process. -/

namespace Sqc
open Concurrency

namespace ProcessManager

structure Config where
  shmName : String := "/sqc_rithmic"
  configPath : String := "config/config.yaml"
  engineCore : UInt32 := 8
  forwarderCore : UInt32 := 9
  heartbeatTimeoutSec : UInt32 := 10
  maxRestartsPerMin : UInt32 := 10
  cpuAffinity : Bool := true

/-- `pid_t`, for the positive values. -/
abbrev Pid := Nat

structure Child where
  spawnedAt : Nat
  /-- The time of the last heartbeat written by this process. -/
  lastBeat : Option Nat
  /-- False for a zombie. -/
  alive : Bool
deriving DecidableEq

inductive Process where
  | free
  | child (c : Child)
  | foreign
deriving DecidableEq

/-- A `SIGKILL` sent by `CheckHealth`: the child and the time of the decision. -/
structure Kill where
  child : Child
  time : Nat
deriving DecidableEq

structure State where
  /-- The monotonic clock, in nanoseconds. -/
  now : Nat
  heartbeatNs : UInt64
  processes : Pid → Process
  /-- `none` for `-1`. -/
  childPid : Option Pid
  monitorRunning : Bool
  lastRestart : Nat
  restartCount : UInt32
  killed : List Kill

namespace State

def setProcess (s : State) (pid : Pid) (p : Process) : State :=
  { s with processes := Function.update s.processes pid p }

/-- `steady_clock::now()` as `CheckHealth` reads it. -/
def nowNs (s : State) : UInt64 := .ofNat s.now

/-- The gateway that `child_pid_` names, while it runs. -/
def liveChild (s : State) : Option Child :=
  s.childPid.bind fun pid =>
    match s.processes pid with
    | .child c => if c.alive then some c else none
    | _ => none

/-- What a `SIGKILL` to `child_pid_` adds to the record. -/
def killRecord (s : State) : List Kill :=
  match s.childPid with
  | none => []
  | some pid =>
    match s.processes pid with
    | .child c => [⟨c, s.now⟩]
    | _ => []

end State

def nsPerSec : Nat := 1000000000

/-! ## The pieces of `CheckHealth` -/

/-- The liveness probe. `waitpid` with `WNOHANG` reaps a zombie and fails for a process that is not
a child. -/
def probe (s : State) : State × Bool :=
  match s.childPid with
  | none => (s, false)
  | some pid =>
    match s.processes pid with
    | .child c =>
      if c.alive then (s, true) else ({ s.setProcess pid .free with childPid := none }, false)
    | _ => ({ s with childPid := none }, false)

/-- The heartbeat test, in unsigned 64-bit arithmetic. -/
def heartbeatExpired (cfg : Config) (nowNs lastHb : UInt64) : Bool :=
  lastHb > 0 && (nowNs - lastHb) / .ofNat nsPerSec > cfg.heartbeatTimeoutSec.toUInt64

/-- The kill on a heartbeat timeout: `SIGKILL`, then a blocking `waitpid`. -/
def killSection (s : State) : State :=
  match s.childPid with
  | none => s
  | some pid =>
    { s.setProcess pid .free with childPid := none, killed := s.killed ++ s.killRecord }

/-- The rate limit on restarts; `false` when `CheckHealth` gives up. -/
def rateLimit (cfg : Config) (s : State) : State × Bool :=
  if (s.now - s.lastRestart) / nsPerSec < 60 then
    let s := { s with restartCount := s.restartCount + 1 }
    if s.restartCount > cfg.maxRestartsPerMin then ({ s with monitorRunning := false }, false)
    else ({ s with lastRestart := s.now }, true)
  else ({ s with restartCount := 0, lastRestart := s.now }, true)

/-- `waitpid(child_pid_, nullptr, WNOHANG)` before a respawn. -/
def reapBeforeSpawn (s : State) : State :=
  match s.childPid with
  | none => s
  | some pid =>
    match s.processes pid with
    | .child c => if c.alive then { s with childPid := none }
      else { s.setProcess pid .free with childPid := none }
    | _ => { s with childPid := none }

/-- `SpawnChild`. The operating system picks a free pid, or `posix_spawn` fails. -/
def spawnChild (s : State) : Option Pid → Option State
  | none => some { s with childPid := none }
  | some pid =>
    match s.processes pid with
    | .free => some { s.setProcess pid (.child ⟨s.now, none, true⟩) with childPid := some pid }
    | _ => none

/-- The last section of `CheckHealth`. -/
def respawn (s : State) (spawned : Option Pid) : Option State :=
  spawnChild (reapBeforeSpawn s) spawned

/-! ## The gateway and the clock -/

/-- The gateway `pid` ends, of its own accord or because of a signal. -/
def childExit (s : State) (pid : Pid) : Option State :=
  match s.processes pid with
  | .child c => if c.alive then some (s.setProcess pid (.child { c with alive := false })) else none
  | _ => none

/-- The heartbeat loop of the gateway `pid` stores the present time. -/
def heartbeat (s : State) (pid : Pid) : Option State :=
  match s.processes pid with
  | .child c =>
    if c.alive then
      some { s.setProcess pid (.child { c with lastBeat := some s.now }) with
        heartbeatNs := s.nowNs }
    else none
  | _ => none

/-- `d` nanoseconds pass; the count of `steady_clock` is a signed 64-bit number. -/
def elapse (s : State) (d : Nat) : Option State :=
  if s.now + d < 2 ^ 63 then some { s with now := s.now + d } else none

/-- After a successful `Setup`. The manager was built at time `built`, its first gateway spawned as
`pid` at time `start`. -/
def afterSetup (built start : Nat) (pid : Pid) : State where
  now := start
  heartbeatNs := 0
  processes := Function.update (fun _ => .free) pid (.child ⟨start, none, true⟩)
  childPid := some pid
  monitorRunning := true
  lastRestart := built
  restartCount := 0
  killed := []

/-! ## Who owns the children

Every process the manager has spawned and not reaped, running or zombie, is the one `child_pid_`
names. Each section keeps this, so a state whose `child_pid_` is `-1` has no children at all. -/

namespace State

def Tracked (s : State) : Prop := ∀ ⦃pid c⦄, s.processes pid = .child c → s.childPid = some pid

def NoChild (s : State) : Prop := ∀ pid c, s.processes pid ≠ .child c

variable {s t : State} {pid : Pid}

theorem with_childPid_none (h : s.childPid = none) : { s with childPid := none } = s := by
  rw [← h]

theorem NoChild.tracked (h : s.NoChild) : s.Tracked := fun pid c hc => absurd hc (h pid c)

theorem Tracked.noChild (h : s.Tracked) (hc : s.childPid = none) : s.NoChild :=
  fun _ _ hp => Option.some_ne_none _ ((h hp).symm.trans hc)

/-- The only child leaves the table. -/
theorem Tracked.reap (h : s.Tracked) (hpid : s.childPid = some pid)
    (ht : t.processes = Function.update s.processes pid .free) : t.NoChild := by
  intro pid' c hc
  rw [ht, Function.update_apply] at hc
  split at hc
  · cases hc
  · next hne => exact hne (Option.some.inj ((h hc).symm.trans hpid))

theorem Tracked.not_child (h : s.Tracked) (hpid : s.childPid = some pid)
    (hp : ∀ c, s.processes pid ≠ .child c) : s.NoChild := by
  intro pid' c hc
  cases Option.some.inj ((h hc).symm.trans hpid)
  exact hp c hc

end State

section Sections

variable {cfg : Config} {s t : State} {pid : Pid} {c : Child}

theorem liveChild_eq_some :
    s.liveChild = some c ↔
      ∃ pid, s.childPid = some pid ∧ s.processes pid = .child c ∧ c.alive = true := by
  unfold State.liveChild
  constructor
  · intro h
    obtain ⟨pid, hpid, h⟩ := Option.bind_eq_some_iff.mp h
    refine ⟨pid, hpid, ?_⟩
    split at h
    · split at h
      · cases h; exact ⟨‹_›, ‹_›⟩
      · cases h
    · cases h
  · rintro ⟨pid, hpid, hp, ha⟩
    simp only [hpid, Option.bind_some, hp, ha, if_true]

/-- The probe leaves a running child alone; otherwise it leaves no child and `child_pid_ = -1`. -/
theorem probe_cases (h : s.Tracked) :
    (∃ c, s.liveChild = some c ∧ probe s = (s, true)) ∨
    (s.liveChild = none ∧ ∃ ps, probe s = ({ s with processes := ps, childPid := none }, false) ∧
      ∀ pid c, ps pid ≠ .child c) := by
  unfold probe State.liveChild
  cases hpid : s.childPid with
  | none => exact .inr ⟨rfl, s.processes, by rw [State.with_childPid_none hpid], h.noChild hpid⟩
  | some pid =>
    simp only [Option.bind_some]
    cases hp : s.processes pid with
    | child c =>
      cases ha : c.alive with
      | true => exact .inl ⟨c, by simp [ha], by simp [ha]⟩
      | false =>
        exact .inr ⟨by simp [ha], _, by simp only [ha]; rfl,
          h.reap (t := s.setProcess pid .free) hpid rfl⟩
    | free => exact .inr ⟨rfl, s.processes, rfl, h.not_child hpid (by simp [hp])⟩
    | «foreign» => exact .inr ⟨rfl, s.processes, rfl, h.not_child hpid (by simp [hp])⟩

theorem killSection_eq (h : s.Tracked) :
    ∃ ps, killSection s =
        { s with processes := ps, childPid := none, killed := s.killed ++ s.killRecord } ∧
      ∀ pid c, ps pid ≠ .child c := by
  unfold killSection
  cases hpid : s.childPid with
  | none =>
    refine ⟨s.processes, ?_, h.noChild hpid⟩
    have hk : s.killRecord = [] := by rw [State.killRecord, hpid]
    rw [hk, List.append_nil]
    exact (State.with_childPid_none hpid).symm
  | some pid => exact ⟨_, rfl, h.reap (t := s.setProcess pid .free) hpid rfl⟩

theorem killRecord_of_live (h : s.liveChild = some c) : s.killRecord = [⟨c, s.now⟩] := by
  obtain ⟨pid, hpid, hp, -⟩ := liveChild_eq_some.mp h
  simp only [State.killRecord, hpid, hp]

/-- The rate limit touches the bookkeeping of the restarts only, and never starts the monitor. -/
theorem rateLimit_eq (cfg : Config) (s : State) :
    ∃ m l n ok, rateLimit cfg s =
        ({ s with monitorRunning := m, lastRestart := l, restartCount := n }, ok) ∧
      (s.monitorRunning = false → m = false) := by
  unfold rateLimit
  split
  · dsimp only
    split
    · exact ⟨_, _, _, _, rfl, fun _ => rfl⟩
    · exact ⟨_, _, _, _, rfl, id⟩
  · exact ⟨_, _, _, _, rfl, id⟩

/-- A respawn with `child_pid_ = -1`: either `posix_spawn` fails, or a child that has just been
spawned takes a free pid. -/
theorem respawn_eq_some {r : Option Pid} (hc : s.childPid = none) (h : respawn s r = some t) :
    (r = none ∧ t = s) ∨ ∃ pid, r = some pid ∧ s.processes pid = .free ∧
      t = { s.setProcess pid (.child ⟨s.now, none, true⟩) with childPid := some pid } := by
  have hr : reapBeforeSpawn s = s := by rw [reapBeforeSpawn, hc]
  rw [respawn, hr] at h
  cases r with
  | none =>
    refine .inl ⟨rfl, ?_⟩
    cases h
    exact State.with_childPid_none hc
  | some pid =>
    rw [spawnChild] at h
    split at h
    · next hf => cases h; exact .inr ⟨pid, rfl, hf, rfl⟩
    · cases h

theorem childExit_eq_some (h : childExit s pid = some t) :
    ∃ c, s.processes pid = .child c ∧ c.alive = true ∧
      t = s.setProcess pid (.child { c with alive := false }) := by
  unfold childExit at h
  split at h
  · next c hc =>
    split at h
    · next ha => cases h; exact ⟨c, hc, ha, rfl⟩
    · cases h
  · cases h

theorem heartbeat_eq_some (h : heartbeat s pid = some t) :
    ∃ c, s.processes pid = .child c ∧ c.alive = true ∧
      t = { s.setProcess pid (.child { c with lastBeat := some s.now }) with
        heartbeatNs := s.nowNs } := by
  unfold heartbeat at h
  split at h
  · next c hc =>
    split at h
    · next ha => cases h; exact ⟨c, hc, ha, rfl⟩
    · cases h
  · cases h

theorem elapse_eq_some {d : Nat} (h : elapse s d = some t) :
    s.now + d < 2 ^ 63 ∧ t = { s with now := s.now + d } := by
  unfold elapse at h
  split at h
  · next hlt => cases h; exact ⟨hlt, rfl⟩
  · cases h

end Sections

end ProcessManager

end Sqc
