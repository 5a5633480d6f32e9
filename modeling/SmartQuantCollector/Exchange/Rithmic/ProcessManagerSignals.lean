import SmartQuantCollector.Exchange.Rithmic.ProcessManagerShutdown

/-! # Whom the process manager signals

The machine of `ProcessManagerShutdown`, looked at for the pids that get a terminating signal or
are waited for without `WNOHANG`. Such a pid should belong to a process that `SpawnChild` has
started and nobody has reaped, i.e. to a child of the process table; a pid that has been reaped may
be anybody's.

Two of the three places that signal are right: under the mutex `child_pid_` names a child. The third
is the final probe of `Shutdown`, made with the same pid after a poll may have reaped it.
`signalsOwn_iff` says that the reuse of that pid is the only thing that can go wrong. -/

namespace Sqc
open Concurrency

namespace ProcessManager

namespace State

/-- `child_pid_` names a process that was spawned and not reaped. -/
def Owned (s : State) : Prop := ∀ pid, s.childPid = some pid → ∃ c, s.processes pid = .child c

variable {s t : State}

theorem Owned.of_none (h : s.childPid = none) : s.Owned := fun pid hpid => by
  rw [h] at hpid
  cases hpid

theorem Owned.of_same (h : s.Owned) (hpid : t.childPid = s.childPid)
    (hps : t.processes = s.processes) : t.Owned := by
  intro pid hp
  rw [hps]
  exact h pid (hpid ▸ hp)

theorem Owned.probe (h : s.Owned) : (probe s).1.Owned := by
  unfold ProcessManager.probe
  split
  · exact h
  · split
    · split
      · exact h
      · exact .of_none rfl
    · exact .of_none rfl

theorem owned_killSection (s : State) : (killSection s).Owned := by
  unfold killSection
  split
  · next h => exact .of_none h
  · exact .of_none rfl

theorem Owned.rateLimit (cfg : Config) (h : s.Owned) : (rateLimit cfg s).1.Owned := by
  obtain ⟨m, l, n, ok, heq, -⟩ := rateLimit_eq cfg s
  rw [heq]
  exact h.of_same rfl rfl

/-- Before a spawn `child_pid_` is cleared; the spawn sets it to a new child. -/
theorem owned_respawn {r : Option Pid} (h : respawn s r = some t) : t.Owned := by
  unfold respawn spawnChild at h
  split at h
  · cases h; exact .of_none rfl
  · next pid =>
    split at h
    · cases h
      rintro _ ⟨⟩
      exact ⟨_, Function.update_self ..⟩
    · cases h

end State

namespace Shutdown

open State

/-- The pid that a step signals with `SIGTERM` or `SIGKILL`, or waits for without `WNOHANG`. -/
def signalled (s : Threads) : Action → Option Pid
  | .monitor _ =>
    -- `SIGKILL` and `waitpid` on a heartbeat timeout
    if s.monitor = .kill && !s.main.holdsMutex then s.manager.childPid else none
  | .main permitted =>
    match s.main with
    | .lock => s.manager.childPid
    | .aliveProbe =>
      -- `SIGKILL` and `waitpid` if `kill(child_pid_, 0)` succeeds
      s.manager.childPid.filter fun pid =>
        match s.manager.processes pid with
        | .free => false
        | .child _ => true
        | .foreign => permitted
    | _ => none
  | _ => none

/-- Whoever is signalled is a child that has not been reaped. -/
def SignalsOwn (s : Threads) (a : Action) : Prop :=
  ∀ pid ∈ signalled s a, ∃ c, s.manager.processes pid = .child c

/-- At the final probe of `Shutdown` the pid does not belong to a foreign process that the manager
may signal. -/
def PidNotReused (s : Threads) : Action → Prop
  | .main permitted => s.main = .aliveProbe → permitted = true →
      ∀ pid ∈ s.manager.childPid, s.manager.processes pid ≠ .foreign
  | _ => True

instance (s : Threads) : (a : Action) → Decidable (PidNotReused s a)
  | .main permitted =>
    have := Option.decidableForallMem s.manager.childPid
      (p := fun pid => s.manager.processes pid ≠ .foreign)
    inferInstanceAs (Decidable (s.main = .aliveProbe → permitted = true → _))
  | .monitor _ | .childExit _ | .heartbeat _ | .elapse _ | .foreignStart _ | .foreignExit _ =>
    isTrue trivial

/-- Outside the end of `Shutdown`'s section `child_pid_` names a child. -/
def PidOwned (s : Threads) : Prop := s.main ≠ .aliveProbe → s.manager.Owned

variable {cfg : Config} {s t : Threads}

theorem PidOwned.monitor {r : Option Pid} (h : PidOwned s) (ht : monitorStep cfg s r = some t) :
    PidOwned t := by
  rw [monitorStep] at ht
  cases hm : s.monitor with
  | loopTest | readClock | loadHeartbeat | sleep =>
    simp only [hm] at ht
    cases ht
    exact h
  | probe =>
    simp only [hm, Option.ite_none_left_eq_some] at ht
    obtain ⟨-, ht⟩ := ht
    cases ht
    exact fun hmain => (h hmain).probe
  | kill =>
    simp only [hm, Option.ite_none_left_eq_some] at ht
    obtain ⟨-, ht⟩ := ht
    cases ht
    exact fun _ => owned_killSection _
  | restart =>
    simp only [hm] at ht
    cases ht
    exact fun hmain => (h hmain).rateLimit cfg
  | respawn =>
    simp only [hm, Option.ite_none_left_eq_some, Option.map_eq_some_iff] at ht
    obtain ⟨-, m, hm', rfl⟩ := ht
    exact fun _ => owned_respawn hm'
  | exited =>
    simp only [hm] at ht
    cases ht

/-- A poll that does not reap changes nothing. -/
theorem pollChild_not_reaped {m : State} (h : (pollChild m).2 = false) : (pollChild m).1 = m := by
  unfold pollChild at h ⊢
  split
  · rfl
  · split
    · split
      · rfl
      · next hpid _ _ hp ha => simp [hpid, hp, ha] at h
    · rfl

theorem finishChild_childPid (m : State) (permitted : Bool) :
    (finishChild m permitted).childPid = none := by
  unfold finishChild
  split
  · next h => exact h
  · split
    · rfl
    · rfl
    · split <;> rfl

theorem PidOwned.main {permitted : Bool} (h : PidOwned s) (ht : mainStep s permitted = some t) :
    PidOwned t := by
  rw [mainStep] at ht
  cases hm : s.main with
  | running =>
    simp only [hm] at ht
    cases ht
    exact fun _ => (h (by simp [hm])).of_same rfl rfl
  | stopReceiver | lock =>
    simp only [hm] at ht
    cases ht
    exact fun _ => h (by simp [hm])
  | poll i =>
    simp only [hm] at ht
    cases ht
    intro hmain
    -- the section goes on polling only if nothing was reaped
    have hreaped : (pollChild s.manager).2 = false := by
      by_contra hr
      simp [hr] at hmain
    change (pollChild s.manager).1.Owned
    rw [pollChild_not_reaped hreaped]
    exact h (by simp [hm])
  | aliveProbe =>
    simp only [hm] at ht
    cases ht
    exact fun _ => .of_none (finishChild_childPid ..)
  | join =>
    simp only [hm, Option.ite_none_right_eq_some] at ht
    obtain ⟨-, ht⟩ := ht
    cases ht
    exact fun _ => h (by simp [hm])
  | returned =>
    simp only [hm] at ht
    cases ht

/-- The environment neither reaps nor touches `child_pid_`. -/
theorem owned_environment {m m' : State} {a : Action} (h : m.Owned)
    (ht : environment m a = some m') : m'.Owned := by
  have hset : ∀ pid p, ((∃ c, m.processes pid = .child c) → ∃ c, p = Process.child c) →
      (m.setProcess pid p).Owned := by
    intro pid p hp pid' hpid'
    simp only [State.setProcess, Function.update_apply]
    split
    · next heq => exact hp (heq ▸ h pid' hpid')
    · exact h pid' hpid'
  cases a with
  | childExit pid =>
    obtain ⟨c, -, -, rfl⟩ := childExit_eq_some ht
    exact hset _ _ fun _ => ⟨_, rfl⟩
  | heartbeat pid =>
    obtain ⟨c, -, -, rfl⟩ := heartbeat_eq_some ht
    exact (hset pid _ fun _ => ⟨_, rfl⟩).of_same rfl rfl
  | elapse ns =>
    obtain ⟨-, rfl⟩ := elapse_eq_some ht
    exact h.of_same rfl rfl
  | foreignStart pid =>
    simp only [environment, Option.ite_none_right_eq_some] at ht
    obtain ⟨hfree, ht⟩ := ht
    cases ht
    refine hset _ _ fun hchild => ?_
    obtain ⟨c, hc⟩ := hchild
    cases hfree.symm.trans hc
  | foreignExit pid =>
    simp only [environment, Option.ite_none_right_eq_some] at ht
    obtain ⟨hforeign, ht⟩ := ht
    cases ht
    refine hset _ _ fun hchild => ?_
    obtain ⟨c, hc⟩ := hchild
    cases hforeign.symm.trans hc
  | monitor r => cases ht
  | main p => cases ht

theorem PidOwned.of_step {a : Action} (h : PidOwned s) (ht : step cfg s a = some t) :
    PidOwned t := by
  cases a with
  | monitor r => exact h.monitor ht
  | main p => exact h.main ht
  | childExit | heartbeat | elapse | foreignStart | foreignExit =>
    obtain ⟨m, hm, rfl⟩ := Option.map_eq_some_iff.mp ht
    exact fun hmain => owned_environment (h hmain) hm

/-- While the monitor may enter its sections, the pid it kills is a child. -/
theorem PidOwned.signalsOwn_monitor (h : PidOwned s) (r : Option Pid) :
    SignalsOwn s (.monitor r) := by
  intro pid hpid
  simp only [signalled] at hpid
  split at hpid
  · next hkill =>
    have hmutex : s.main.holdsMutex = false := by
      simpa using (Bool.and_eq_true_iff.mp hkill).2
    exact h (fun hmain => by rw [hmain] at hmutex; cases hmutex) pid hpid
  · cases hpid

theorem signalsOwn_aliveProbe {permitted : Bool} (hmain : s.main = .aliveProbe) :
    SignalsOwn s (.main permitted) ↔ PidNotReused s (.main permitted) := by
  simp only [SignalsOwn, signalled, PidNotReused, hmain, forall_const]
  cases hpid : s.manager.childPid with
  | none => exact iff_of_true nofun nofun
  | some pid =>
    cases hp : s.manager.processes pid with
    | free => simp [hp]
    | child c => simp [hp]
    | «foreign» => simp [hp]

theorem PidOwned.signalsOwn_action_iff (h : PidOwned s) (a : Action) :
    SignalsOwn s a ↔ PidNotReused s a := by
  cases a with
  | monitor r => exact iff_of_true (h.signalsOwn_monitor r) trivial
  | main permitted =>
    by_cases hmain : s.main = .aliveProbe
    · exact signalsOwn_aliveProbe hmain
    · refine iff_of_true (fun pid hpid => ?_) fun hp => absurd hp hmain
      -- only the section's first step signals: the `SIGTERM`
      simp only [signalled] at hpid
      split at hpid
      · exact h hmain pid hpid
      · next hp => exact absurd hp hmain
      · cases hpid
  | childExit | heartbeat | elapse | foreignStart | foreignExit =>
    exact iff_of_true nofun trivial

/-- Along every run, the signals and waits are for children exactly as long as the pid that
`Shutdown` probes at the end of its section has not been given to somebody else. -/
theorem signalsOwn_iff (cfg : Config) (built now : Nat) (pid : Pid) (as : List Action) :
    (machine cfg built now pid).Along SignalsOwn (start built now pid) as ↔
      (machine cfg built now pid).Along PidNotReused (start built now pid) as := by
  have hstart : PidOwned (start built now pid) := by
    rintro - _ ⟨⟩
    refine ⟨⟨now, none, true⟩, ?_⟩
    simp [start, afterSetup]
  exact (machine cfg built now pid).along_congr (fun _ _ _ hs ht => hs.of_step ht)
    (fun _ a hs => hs.signalsOwn_action_iff a) hstart

/-- The run of `stopInsideCheckHealth`: its pid is reused before the final probe, by a process that
the manager may not signal. -/
theorem stopInsideCheckHealth_signalsOwn :
    (machine {} 0 0 1).Along PidNotReused (start 0 0 1) stopInsideCheckHealth ∧
    (machine {} 0 0 1).Along SignalsOwn (start 0 0 1) stopInsideCheckHealth := by
  have h : (machine {} 0 0 1).Along PidNotReused (start 0 0 1) stopInsideCheckHealth := by decide
  exact ⟨h, (signalsOwn_iff ..).mpr h⟩

/-- The gateway ends at the `SIGTERM` and is reaped by the first poll. Its pid goes to another
process, for which the final probe succeeds: that process gets the `SIGKILL`. -/
theorem reused_pid_killed :
    ∃ s, (machine {} 0 0 1).exec (start 0 0 1)
        [.main true, .main true, .main true, .childExit 1, .main true, .foreignStart 1] = some s ∧
      signalled s (.main true) = some 1 ∧ s.manager.processes 1 = .foreign ∧
      ¬ SignalsOwn s (.main true) := by
  refine ⟨_, rfl, rfl, rfl, fun h => ?_⟩
  obtain ⟨c, hc⟩ := h 1 rfl
  cases hc

end Shutdown

end ProcessManager

end Sqc
