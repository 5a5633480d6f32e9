import SmartQuantCollector.Exchange.Rithmic.ProcessManager

/-! # `RithmicProcessManager::Shutdown` against the monitor

The monitor thread and the main thread as two programs over the state of the manager. A step is a
read or write of a shared variable or a section under `child_mtx_`; `Shutdown` keeps the mutex while
it waits for the child, so its section is several steps during which the monitor's sections are
blocked. Around them the gateway runs, stores heartbeats, ends or hangs, pids are reused, and time
passes.

`CheckHealth` releases the mutex between the probe and the respawn and does not look at
`monitor_running_` again. `gatewayStopped_iff_noLateRespawn` says that this is the one way to leave
a gateway behind. -/

namespace Sqc
open Concurrency

namespace ProcessManager

namespace Shutdown

/-- The next step of the monitor's loop. -/
inductive Monitor where
  | loopTest
  | probe
  | readClock
  | loadHeartbeat (nowNs : UInt64)
  | kill
  | restart
  | respawn
  | sleep
  | exited
deriving DecidableEq

/-- The next step of `main`; `poll i` is iteration `i` of the wait for the child. -/
inductive Main where
  | running
  | stopReceiver
  | lock
  | poll (i : Nat)
  | aliveProbe
  | join
  | returned
deriving DecidableEq

namespace Main

def holdsMutex : Main → Bool
  | .poll _ | .aliveProbe => true
  | _ => false

/-- `Shutdown` has left its section. -/
def sectionDone : Main → Bool
  | .join | .returned => true
  | _ => false

end Main

namespace Monitor

/-- The monitor is not inside `CheckHealth`. -/
def outside : Monitor → Bool
  | .loopTest | .sleep | .exited => true
  | _ => false

/-- `CheckHealth` has found the child dead. -/
def restarting : Monitor → Bool
  | .restart | .respawn => true
  | _ => false

end Monitor

structure Threads where
  manager : State
  monitor : Monitor
  main : Main

/-! ## The monitor -/

def monitorStep (cfg : Config) (s : Threads) (spawned : Option Pid) : Option Threads :=
  match s.monitor with
  | .loopTest =>
    some { s with monitor := if s.manager.monitorRunning then .probe else .exited }
  | .probe =>
    if s.main.holdsMutex then none
    else
      let (m, alive) := ProcessManager.probe s.manager
      some { s with manager := m, monitor := if alive then .readClock else .restart }
  | .readClock => some { s with monitor := .loadHeartbeat s.manager.nowNs }
  | .loadHeartbeat nowNs =>
    some { s with
      monitor := if heartbeatExpired cfg nowNs s.manager.heartbeatNs then .kill else .sleep }
  | .kill =>
    if s.main.holdsMutex then none
    else some { s with manager := killSection s.manager, monitor := .restart }
  | .restart =>
    let (m, ok) := rateLimit cfg s.manager
    some { s with manager := m, monitor := if ok then .respawn else .sleep }
  | .respawn =>
    if s.main.holdsMutex then none
    else (ProcessManager.respawn s.manager spawned).map
      fun m => { s with manager := m, monitor := .sleep }
  | .sleep => some { s with monitor := .loopTest }
  | .exited => none

/-! ## `Shutdown` -/

/-- One `waitpid` of the wait; `true` when it reaps the child. -/
def pollChild (s : State) : State × Bool :=
  match s.childPid with
  | none => (s, false)
  | some pid =>
    match s.processes pid with
    | .child c => if c.alive then (s, false) else (s.setProcess pid .free, true)
    | _ => (s, false)

/-- The end of the section. `kill(pid, 0)` succeeds for a process that exists and may be signalled;
such a process gets a `SIGKILL`, and is reaped if it is a child. -/
def finishChild (s : State) (permitted : Bool) : State :=
  match s.childPid with
  | none => s
  | some pid =>
    match s.processes pid with
    | .free => { s with childPid := none }
    | .child _ => { s.setProcess pid .free with childPid := none }
    | .foreign =>
      if permitted then { s.setProcess pid .free with childPid := none }
      else { s with childPid := none }

def kMaxPolls : Nat := 50

def mainStep (s : Threads) (permitted : Bool) : Option Threads :=
  match s.main with
  | .running =>
    some { s with manager := { s.manager with monitorRunning := false }, main := .stopReceiver }
  | .stopReceiver => some { s with main := .lock }
  | .lock => some { s with main := if s.manager.childPid.isSome then .poll 0 else .join }
  | .poll i =>
    let (m, reaped) := pollChild s.manager
    some { s with
      manager := m
      main := if reaped || kMaxPolls ≤ i + 1 then .aliveProbe else .poll (i + 1) }
  | .aliveProbe => some { s with manager := finishChild s.manager permitted, main := .join }
  | .join => if s.monitor = .exited then some { s with main := .returned } else none
  | .returned => none

/-! ## The machine -/

inductive Action where
  | monitor (spawned : Option Pid)
  | main (permitted : Bool)
  | childExit (pid : Pid)
  | heartbeat (pid : Pid)
  | elapse (ns : Nat)
  | foreignStart (pid : Pid)
  | foreignExit (pid : Pid)

/-- What happens outside the two threads. -/
def environment (s : State) : Action → Option State
  | .childExit pid => ProcessManager.childExit s pid
  | .heartbeat pid => ProcessManager.heartbeat s pid
  | .elapse ns => ProcessManager.elapse s ns
  | .foreignStart pid =>
    if s.processes pid = .free then some (s.setProcess pid .foreign) else none
  | .foreignExit pid =>
    if s.processes pid = .foreign then some (s.setProcess pid .free) else none
  | _ => none

def step (cfg : Config) (s : Threads) : Action → Option Threads
  | .monitor spawned => monitorStep cfg s spawned
  | .main permitted => mainStep s permitted
  | a => (environment s.manager a).map fun m => { s with manager := m }

def start (built now : Nat) (pid : Pid) : Threads where
  manager := afterSetup built now pid
  monitor := .loopTest
  main := .running

def machine (cfg : Config) (built now : Nat) (pid : Pid) : Machine Threads Action where
  init := start built now pid
  step := step cfg

/-- What `Shutdown` should leave behind. -/
def GatewayStopped (s : State) : Prop :=
  s.childPid = none ∧ ∀ pid c, s.processes pid = .child c → c.alive = false

/-- The step spawns a gateway although `Shutdown` has left its section. -/
def lateRespawn (s : Threads) : Action → Bool
  | .monitor (some _) => s.monitor = .respawn && s.main.sectionDone
  | _ => false

def NoLateRespawn (s : Threads) (a : Action) : Prop := lateRespawn s a = false

instance (s : Threads) (a : Action) : Decidable (NoLateRespawn s a) := by
  unfold NoLateRespawn; infer_instance

/-! ## The invariant -/

structure Inv (s : Threads) : Prop where
  tracked : s.manager.Tracked
  restarting : s.monitor.restarting = true → s.manager.childPid = none
  stopped : s.main ≠ .running → s.manager.monitorRunning = false
  /-- A gateway spawned after the section of `Shutdown` is not seen by anybody any more. -/
  late : s.main.sectionDone = true → s.manager.childPid ≠ none → s.monitor.outside = true

variable {cfg : Config} {s t : Threads}

/-- What the monitor does to `child_pid_`. Outside `CheckHealth` it leaves it alone, and stays there
once the flag is down; inside it may clear it; its respawn may set it. -/
inductive MonitorEffect (s t : Threads) (spawned : Option Pid) : Prop where
  | keeps (childPid : t.manager.childPid = s.manager.childPid)
      (outside : s.manager.monitorRunning = false → s.monitor.outside = true →
        t.monitor.outside = true)
      (notSpawned : s.monitor = .respawn → spawned = none)
  | clears (childPid : t.manager.childPid = none) (inside : s.monitor.outside = false)
      (notRespawn : s.monitor ≠ .respawn)
  | spawns (pid : Pid) (respawn : s.monitor = .respawn) (spawned_eq : spawned = some pid)
      (childPid : t.manager.childPid = some pid) (sleep : t.monitor = .sleep)

structure MonitorSpec (s t : Threads) (spawned : Option Pid) : Prop where
  main : t.main = s.main
  tracked : t.manager.Tracked
  running : s.manager.monitorRunning = false → t.manager.monitorRunning = false
  restarting : t.monitor.restarting = true → t.manager.childPid = none
  effect : MonitorEffect s t spawned

/-- A step of the monitor that is private to it. -/
theorem MonitorSpec.privateStep {r : Option Pid} (h : Inv s) (m : Monitor)
    (hr : m.restarting = true → s.manager.childPid = none)
    (hout : s.manager.monitorRunning = false → s.monitor.outside = true → m.outside = true)
    (hne : s.monitor ≠ .respawn) : MonitorSpec s { s with monitor := m } r :=
  ⟨rfl, h.tracked, id, hr, .keeps rfl hout fun he => absurd he hne⟩

theorem Inv.monitorSpec {r : Option Pid} (h : Inv s) (ht : monitorStep cfg s r = some t) :
    MonitorSpec s t r := by
  rw [monitorStep] at ht
  cases hm : s.monitor with
  | loopTest =>
    simp only [hm] at ht
    cases ht
    apply MonitorSpec.privateStep h
    · split <;> exact nofun
    · intro hrun _
      rw [hrun]; rfl
    · rw [hm]; exact nofun
  | probe =>
    simp only [hm, Option.ite_none_left_eq_some] at ht
    obtain ⟨-, ht⟩ := ht
    rcases probe_cases h.tracked with ⟨c, -, hp⟩ | ⟨-, ps, hp, hps⟩
    · rw [hp] at ht
      cases ht
      apply MonitorSpec.privateStep h
      · exact nofun
      · rw [hm]; exact nofun
      · rw [hm]; exact nofun
    · rw [hp] at ht
      cases ht
      refine ⟨rfl, fun pid c hc => absurd hc (hps pid c), id, fun _ => rfl, ?_⟩
      exact .clears rfl (by rw [hm]; rfl) (by rw [hm]; exact nofun)
  | readClock =>
    simp only [hm] at ht
    cases ht
    apply MonitorSpec.privateStep h
    · exact nofun
    · rw [hm]; exact nofun
    · rw [hm]; exact nofun
  | loadHeartbeat nowNs =>
    simp only [hm] at ht
    cases ht
    apply MonitorSpec.privateStep h
    · split <;> exact nofun
    · rw [hm]; exact nofun
    · rw [hm]; exact nofun
  | kill =>
    simp only [hm, Option.ite_none_left_eq_some] at ht
    obtain ⟨-, ht⟩ := ht
    obtain ⟨ps, hk, hps⟩ := killSection_eq h.tracked
    rw [hk] at ht
    cases ht
    refine ⟨rfl, fun pid c hc => absurd hc (hps pid c), id, fun _ => rfl, ?_⟩
    exact .clears rfl (by rw [hm]; rfl) (by rw [hm]; exact nofun)
  | restart =>
    obtain ⟨m, l, n, ok, hlim, hrun⟩ := rateLimit_eq cfg s.manager
    simp only [hm, hlim] at ht
    cases ht
    have hnone : s.manager.childPid = none := h.restarting (by rw [hm]; rfl)
    refine ⟨rfl, h.tracked, hrun, fun _ => hnone, .keeps rfl ?_ ?_⟩
    · rw [hm]; exact nofun
    · rw [hm]; exact nofun
  | respawn =>
    simp only [hm, Option.ite_none_left_eq_some, Option.map_eq_some_iff] at ht
    obtain ⟨-, m, hm', rfl⟩ := ht
    have hnone : s.manager.childPid = none := h.restarting (by rw [hm]; rfl)
    rcases respawn_eq_some hnone hm' with ⟨hr, rfl⟩ | ⟨pid, hr, hfree, rfl⟩
    · refine ⟨rfl, h.tracked, id, nofun, .keeps rfl (fun _ _ => rfl) fun _ => hr⟩
    · refine ⟨rfl, ?_, id, nofun, .spawns pid hm hr rfl rfl⟩
      intro pid' c hc
      simp only [State.setProcess, Function.update_apply] at hc
      split at hc
      · next heq => exact congrArg some heq.symm
      · exact absurd hc (h.tracked.noChild hnone _ _)
  | sleep =>
    simp only [hm] at ht
    cases ht
    apply MonitorSpec.privateStep h
    · exact nofun
    · exact fun _ _ => rfl
    · rw [hm]; exact nofun
  | exited =>
    simp only [hm] at ht
    cases ht

structure MainSpec (s t : Threads) : Prop where
  monitor : t.monitor = s.monitor
  tracked : t.manager.Tracked
  running : t.manager.monitorRunning = false
  /-- Leaving the section clears `child_pid_`; the other steps do not touch it. -/
  phase : (t.main.sectionDone = s.main.sectionDone ∧ t.manager.childPid = s.manager.childPid) ∨
    (s.main.sectionDone = false ∧ t.manager.childPid = none)

theorem pollChild_spec {m : State} (h : m.Tracked) :
    (pollChild m).1.Tracked ∧ (pollChild m).1.childPid = m.childPid ∧
      (pollChild m).1.monitorRunning = m.monitorRunning := by
  unfold pollChild
  cases hpid : m.childPid with
  | none => exact ⟨h, hpid, rfl⟩
  | some pid =>
    dsimp only
    split
    · split
      · exact ⟨h, hpid, rfl⟩
      · exact ⟨(h.reap hpid rfl).tracked, hpid, rfl⟩
    · exact ⟨h, hpid, rfl⟩

theorem finishChild_spec {m : State} (h : m.Tracked) (permitted : Bool) :
    (finishChild m permitted).NoChild ∧ (finishChild m permitted).childPid = none ∧
      (finishChild m permitted).monitorRunning = m.monitorRunning := by
  unfold finishChild
  cases hpid : m.childPid with
  | none => exact ⟨h.noChild hpid, hpid, rfl⟩
  | some pid =>
    dsimp only
    split
    · next hp => exact ⟨h.not_child hpid (by rw [hp]; exact nofun), rfl, rfl⟩
    · exact ⟨h.reap hpid rfl, rfl, rfl⟩
    · next hp =>
      split
      · exact ⟨h.reap hpid rfl, rfl, rfl⟩
      · exact ⟨h.not_child hpid (by rw [hp]; exact nofun), rfl, rfl⟩

theorem Inv.mainSpec {permitted : Bool} (h : Inv s) (ht : mainStep s permitted = some t) :
    MainSpec s t := by
  rw [mainStep] at ht
  have hrun : s.main ≠ .running → s.manager.monitorRunning = false := h.stopped
  cases hm : s.main with
  | running =>
    simp only [hm] at ht
    cases ht
    exact ⟨rfl, h.tracked, rfl, .inl ⟨by rw [hm]; rfl, rfl⟩⟩
  | stopReceiver =>
    simp only [hm] at ht
    cases ht
    exact ⟨rfl, h.tracked, hrun (by rw [hm]; exact nofun), .inl ⟨by rw [hm]; rfl, rfl⟩⟩
  | lock =>
    simp only [hm] at ht
    cases ht
    refine ⟨rfl, h.tracked, hrun (by rw [hm]; exact nofun), ?_⟩
    cases hpid : s.manager.childPid with
    | none => exact .inr ⟨by rw [hm]; rfl, rfl⟩
    | some pid => exact .inl ⟨by rw [hm]; rfl, rfl⟩
  | poll i =>
    obtain ⟨htr, hpid, hr⟩ := pollChild_spec h.tracked
    simp only [hm] at ht
    cases ht
    refine ⟨rfl, htr, hr.trans (hrun (by rw [hm]; exact nofun)), .inl ⟨?_, hpid⟩⟩
    rw [hm]
    dsimp only
    split <;> rfl
  | aliveProbe =>
    obtain ⟨htr, hpid, hr⟩ := finishChild_spec h.tracked permitted
    simp only [hm] at ht
    cases ht
    exact ⟨rfl, htr.tracked, hr.trans (hrun (by rw [hm]; exact nofun)),
      .inr ⟨by rw [hm]; rfl, hpid⟩⟩
  | join =>
    simp only [hm, Option.ite_none_right_eq_some] at ht
    obtain ⟨-, ht⟩ := ht
    cases ht
    exact ⟨rfl, h.tracked, hrun (by rw [hm]; exact nofun), .inl ⟨by rw [hm]; rfl, rfl⟩⟩
  | returned =>
    simp only [hm] at ht
    cases ht

/-- The environment adds no children. -/
theorem environment_spec {m m' : State} {a : Action} (h : m.Tracked)
    (ht : environment m a = some m') :
    m'.Tracked ∧ m'.childPid = m.childPid ∧ m'.monitorRunning = m.monitorRunning := by
  have hset : ∀ pid p, ((∃ c, p = .child c) → ∃ c, m.processes pid = .child c) →
      (m.setProcess pid p).Tracked := by
    intro pid p hp pid' c hc
    simp only [State.setProcess, Function.update_apply] at hc
    split at hc
    · next heq =>
      obtain ⟨c', hc'⟩ := hp ⟨c, hc⟩
      exact h (heq ▸ hc')
    · exact h hc
  cases a with
  | childExit pid =>
    obtain ⟨c, hc, -, rfl⟩ := childExit_eq_some ht
    exact ⟨hset _ _ fun _ => ⟨c, hc⟩, rfl, rfl⟩
  | heartbeat pid =>
    obtain ⟨c, hc, -, rfl⟩ := heartbeat_eq_some ht
    exact ⟨hset pid _ fun _ => ⟨c, hc⟩, rfl, rfl⟩
  | elapse ns =>
    obtain ⟨-, rfl⟩ := elapse_eq_some ht
    exact ⟨h, rfl, rfl⟩
  | foreignStart pid =>
    simp only [environment, Option.ite_none_right_eq_some] at ht
    obtain ⟨-, ht⟩ := ht
    cases ht
    exact ⟨hset _ _ nofun, rfl, rfl⟩
  | foreignExit pid =>
    simp only [environment, Option.ite_none_right_eq_some] at ht
    obtain ⟨-, ht⟩ := ht
    cases ht
    exact ⟨hset _ _ nofun, rfl, rfl⟩
  | monitor r => cases ht
  | main p => cases ht

/-! ## Runs -/

/-- The child is gone once `Shutdown` has left its section. -/
def Closed (s : Threads) : Prop := s.main.sectionDone = true → s.manager.childPid = none

theorem Inv.start (built now : Nat) (pid : Pid) : Inv (start built now pid) := by
  refine ⟨?_, nofun, fun h => absurd rfl h, nofun⟩
  intro pid' c hc
  simp only [Shutdown.start, afterSetup, Function.update_apply] at hc
  split at hc
  · next heq => exact congrArg some heq.symm
  · cases hc

theorem MonitorSpec.inv {r : Option Pid} (h : Inv s) (ht : MonitorSpec s t r) : Inv t where
  tracked := ht.tracked
  restarting := ht.restarting
  stopped hm := ht.running (h.stopped (ht.main ▸ hm))
  late hdone hpid := by
    rw [ht.main] at hdone
    have hstop : s.manager.monitorRunning = false :=
      h.stopped (by intro hm; rw [hm] at hdone; cases hdone)
    cases ht.effect with
    | keeps hp hout _ => exact hout hstop (h.late hdone (hp ▸ hpid))
    | clears hp => exact absurd hp hpid
    | spawns pid _ _ _ hsleep => rw [hsleep]; rfl

theorem MonitorSpec.closed_iff {r : Option Pid} (h : Inv s) (ht : MonitorSpec s t r) :
    Closed t ↔ Closed s ∧ NoLateRespawn s (.monitor r) := by
  have hlate : (s.monitor = .respawn → r = none) → NoLateRespawn s (.monitor r) := by
    intro hr
    cases r with
    | none => rfl
    | some pid => simp [NoLateRespawn, lateRespawn, show s.monitor ≠ .respawn from nofun ∘ hr]
  rw [Closed, Closed, ht.main]
  cases ht.effect with
  | keeps hp _ hr =>
    rw [hp]
    exact (and_iff_left (hlate hr)).symm
  | clears hp hin hne =>
    refine ⟨fun _ => ⟨fun hdone => ?_, hlate fun he => absurd he hne⟩, fun _ _ => hp⟩
    by_contra hpid
    rw [h.late hdone hpid] at hin
    cases hin
  | spawns pid hm hr hp _ =>
    subst hr
    rw [hp, NoLateRespawn, lateRespawn, hm]
    cases s.main.sectionDone <;> simp

theorem MainSpec.inv (h : Inv s) (ht : MainSpec s t) : Inv t where
  tracked := ht.tracked
  restarting hr := by
    rw [ht.monitor] at hr
    rcases ht.phase with ⟨-, hp⟩ | ⟨-, hp⟩
    · exact hp.trans (h.restarting hr)
    · exact hp
  stopped _ := ht.running
  late hdone hpid := by
    rcases ht.phase with ⟨hd, hp⟩ | ⟨-, hp⟩
    · rw [ht.monitor]; exact h.late (hd ▸ hdone) (hp ▸ hpid)
    · exact absurd hp hpid

theorem MainSpec.closed_iff (ht : MainSpec s t) : Closed t ↔ Closed s := by
  rw [Closed, Closed]
  rcases ht.phase with ⟨hd, hp⟩ | ⟨hd, hp⟩
  · rw [hd, hp]
  · simp [hd, hp]

theorem Inv.step {a : Action} (h : Inv s) (ht : Shutdown.step cfg s a = some t) :
    Inv t ∧ (Closed t ↔ Closed s ∧ NoLateRespawn s a) := by
  have henv : (∀ r, a ≠ .monitor r) → ∀ m, environment s.manager a = some m →
      t = { s with manager := m } → Inv t ∧ (Closed t ↔ Closed s ∧ NoLateRespawn s a) := by
    intro hne m hm hts
    subst hts
    obtain ⟨htr, hpid, hrun⟩ := environment_spec h.tracked hm
    have hC : NoLateRespawn s a := by
      cases a with
      | monitor r => exact absurd rfl (hne r)
      | _ => rfl
    refine ⟨⟨htr, fun hr => hpid.trans (h.restarting hr), fun hm => hrun.trans (h.stopped hm),
      fun hd hp => h.late hd (hpid ▸ hp)⟩, ?_⟩
    rw [Closed, Closed, hpid]
    exact (and_iff_left hC).symm
  cases a with
  | monitor r =>
    have hspec := h.monitorSpec ht
    exact ⟨hspec.inv h, hspec.closed_iff h⟩
  | main p =>
    have hspec := h.mainSpec ht
    exact ⟨hspec.inv h, hspec.closed_iff.trans (and_iff_left rfl).symm⟩
  | _ =>
    obtain ⟨m, hm, hts⟩ := Option.map_eq_some_iff.mp ht
    exact henv nofun m hm hts.symm

/-- When `Shutdown` has returned, no gateway runs and `child_pid_` is `-1` exactly if the monitor
has not spawned one after `Shutdown` left its section. -/
theorem gatewayStopped_iff_noLateRespawn {built now : Nat} {pid : Pid} {as : List Action}
    (hrun : (machine cfg built now pid).exec (start built now pid) as = some t)
    (hret : t.main = .returned) :
    GatewayStopped t.manager ↔
      (machine cfg built now pid).Along NoLateRespawn (start built now pid) as := by
  have hI : Inv t := (machine cfg built now pid).exec_invariant (C := fun _ _ => True)
    (fun _ _ _ hI _ hs => (hI.step hs).1) (Inv.start built now pid) (Machine.along_true _) hrun
  have hclosed : Closed t ↔ Closed (start built now pid) ∧ _ :=
    (machine cfg built now pid).exec_iff (fun _ _ _ hI hs => (hI.step hs).1)
      (fun _ _ _ hI hs => (hI.step hs).2) (Inv.start built now pid) hrun
  rw [and_iff_right (show Closed (start built now pid) from nofun)] at hclosed
  rw [← hclosed, Closed, hret]
  constructor
  · exact fun h _ => h.1
  · intro h
    have hpid := h rfl
    exact ⟨hpid, fun p c hc => absurd hc (hI.tracked.noChild hpid p c)⟩

/-- `Shutdown` begins while the monitor is between its probe and its look at the heartbeat. The
gateway ends at the `SIGTERM`, is reaped by the second poll, and its pid goes to another process. -/
def stopInsideCheckHealth : List Action :=
  [.monitor none, .monitor none, .main true, .main true, .main true, .main true, .childExit 1,
    .main true, .foreignStart 1, .main false, .monitor none, .monitor none, .monitor none,
    .monitor none, .main true]

theorem stopInsideCheckHealth_stopped :
    ((machine {} 0 0 1).exec (start 0 0 1) stopInsideCheckHealth).map (·.main) = some .returned ∧
    ∀ t ∈ (machine {} 0 0 1).exec (start 0 0 1) stopInsideCheckHealth,
      t.main = .returned → GatewayStopped t.manager :=
  ⟨rfl, fun _ ht hret => (gatewayStopped_iff_noLateRespawn ht hret).mpr (by decide)⟩

/-- The gateway crashes and the monitor decides to restart it. `Shutdown` runs its section in
between, finds `child_pid_ = -1` and waits for the monitor, whose last act is to spawn a gateway. -/
theorem late_respawn_leaves_gateway :
    ∃ t, (machine {} 0 0 1).exec (start 0 0 1)
        [.childExit 1, .monitor none, .monitor none, .monitor none, .main true, .main true,
          .main true, .monitor (some 2), .monitor none, .monitor none, .main true] = some t ∧
      t.main = .returned ∧ ¬ GatewayStopped t.manager :=
  ⟨_, rfl, rfl, fun h => nomatch h.1⟩

end Shutdown

end ProcessManager

end Sqc
