import SmartQuantCollector.Lib.Machine

/-! # Worker loops (`PubWorker::Run`, `RithmicReceiver::Run`, `TelemetryAgent::Run`)

Three threads have the same frame: `Run` does its preparations, stores true to `running_` and loops
while it loads true; `Stop`, called by another thread, stores false, and the thread is joined. The
loops differ in what they prepare and in that the pub worker drains its queues behind the loop.
Each operation on `running_` is a step, and each operation of the preparations too, as they may take
any time; a pass of the loop is one step.

`stop_holds_iff` says which requests to stop are kept. -/

namespace Sqc
open Concurrency

namespace WorkerLoop

inductive Loop where
  | pubWorker
  | rithmicReceiver
  | telemetryAgent
deriving DecidableEq

/-- What a thread does before its loop. -/
inductive Op where
  | pinToCore
  | bindTcp
  | bindIpc
  | storeTrue
  | log
deriving DecidableEq

namespace Loop

/-- `Run`, up to its loop. -/
def beforeLoop : Loop → List Op
  | pubWorker => [.bindTcp, .bindIpc, .storeTrue, .log]
  | rithmicReceiver => [.storeTrue, .log]
  | telemetryAgent => [.storeTrue, .log]

/-- `DrainAll` behind the loop. -/
def drains : Loop → Bool
  | pubWorker => true
  | rithmicReceiver | telemetryAgent => false

end Loop

/-- The next operation of the worker thread. -/
inductive Worker where
  | starting (op : Op) (ops : List Op)
  | test
  | body
  | drain
  | exited
deriving DecidableEq

namespace Worker

def start : List Op → Worker
  | [] => .test
  | op :: ops => .starting op ops

/-- The operations left before the loop. -/
def pending : Worker → List Op
  | starting op ops => op :: ops
  | _ => []

@[simp] theorem pending_starting (op : Op) (ops : List Op) :
    (starting op ops).pending = op :: ops := rfl

@[simp] theorem pending_start (ops : List Op) : (start ops).pending = ops := by
  cases ops <;> rfl

end Worker

/-- The thread that calls `Stop` and joins. -/
inductive Main where
  | started
  | stopped
  | joined
deriving DecidableEq

structure State where
  running : Bool
  worker : Worker
  main : Main
deriving DecidableEq

inductive Action where
  /-- A step of the worker; `work` is what a cycle of `DrainAll` finds. -/
  | worker (work : Bool)
  | main
deriving DecidableEq

def workerStep (l : Loop) (work : Bool) (s : State) : Option State :=
  match s.worker with
  | .starting op ops =>
    some { s with running := if op = .storeTrue then true else s.running, worker := .start ops }
  | .test =>
    some { s with worker := if s.running then .body else if l.drains then .drain else .exited }
  | .body => some { s with worker := .test }
  | .drain => some { s with worker := if work then .drain else .exited }
  | .exited => none

/-- `Stop`, then the join, which waits for the thread. -/
def mainStep (s : State) : Option State :=
  match s.main with
  | .started => some { s with running := false, main := .stopped }
  | .stopped => if s.worker = .exited then some { s with main := .joined } else none
  | .joined => none

def step (l : Loop) (s : State) : Action → Option State
  | .worker work => workerStep l work s
  | .main => mainStep s

/-- The thread has been created; `cpu_affinity` decides whether it pins itself first. -/
def init (l : Loop) (cpuAffinity : Bool) : State where
  running := false
  worker := .start ((if cpuAffinity then [.pinToCore] else []) ++ l.beforeLoop)
  main := .started

def machine (l : Loop) (cpuAffinity : Bool) : Machine State Action where
  init := init l cpuAffinity
  step := step l

/-! ## Requests to stop -/

variable {l : Loop} {cpuAffinity : Bool} {s t : State} {as : List Action}

/-- The request to stop is in force: the flag is false, a loop test leaves the loop, and the thread
can come to its end and be joined. -/
structure StopHolds (l : Loop) (cpuAffinity : Bool) (s : State) : Prop where
  flag : s.running = false
  test : s.worker = .test → ∀ work, ∀ t ∈ step l s (.worker work), t.worker ≠ .body
  join : ∃ as t, (machine l cpuAffinity).exec s as = some t ∧ t.main = .joined

/-- `Stop` has stored false, and `Run` will not store true any more. -/
structure Final (s : State) : Prop where
  main : s.main ≠ .started
  flag : s.running = false
  stored : .storeTrue ∉ s.worker.pending

theorem Final.of_step {a : Action} (h : Final s) (hs : step l s a = some t) : Final t := by
  cases a with
  | main =>
    have hmain := h.main
    change mainStep s = some t at hs
    unfold mainStep at hs
    split at hs
    · next heq => exact absurd heq hmain
    · split at hs
      · cases hs; exact ⟨nofun, h.flag, h.stored⟩
      · cases hs
    · cases hs
  | worker work =>
    have hflag := h.flag
    have hstored := h.stored
    change workerStep l work s = some t at hs
    unfold workerStep at hs
    split at hs
    · next op ops heq =>
      rw [heq] at hstored
      obtain ⟨hop, hops⟩ := not_or.mp fun hmem => hstored (List.mem_cons.mpr hmem)
      cases hs
      refine ⟨h.main, ?_, by simpa using hops⟩
      exact (if_neg (Ne.symm hop)).trans hflag
    · cases hs
      refine ⟨h.main, hflag, ?_⟩
      simp only [hflag]
      cases l.drains <;> exact nofun
    · cases hs; exact ⟨h.main, hflag, nofun⟩
    · cases hs
      refine ⟨h.main, hflag, ?_⟩
      cases work <;> exact nofun
    · cases hs

/-- What is left until the thread has been joined. -/
def remaining (s : State) : Nat :=
  (match s.worker with
    | .starting _ ops => 4 + ops.length
    | .body => 3
    | .test => 2
    | .drain => 1
    | .exited => 0) + if s.main = .joined then 0 else 1

theorem remaining_start_lt (op : Op) (ops : List Op) (running running' : Bool) (main : Main) :
    remaining ⟨running', .start ops, main⟩ < remaining ⟨running, .starting op ops, main⟩ := by
  cases ops with
  | nil => simp [remaining, Worker.start]
  | cons op' ops => simp [remaining, Worker.start]

/-- The worker goes on as long as it can, and is joined. -/
theorem Final.progress (h : Final s) (hmain : s.main ≠ .joined) :
    ∃ a t, step l s a = some t ∧ Final t ∧ remaining t < remaining s := by
  obtain ⟨running, worker, main⟩ := s
  cases worker with
  | starting op ops =>
    exact ⟨.worker false, _, rfl, h.of_step (l := l) (a := .worker false) rfl,
      remaining_start_lt op ops ..⟩
  | test =>
    refine ⟨.worker false, _, rfl, h.of_step (l := l) (a := .worker false) rfl, ?_⟩
    have hflag : running = false := h.flag
    subst hflag
    cases l <;> simp [remaining, Loop.drains]
  | body =>
    refine ⟨.worker false, _, rfl, h.of_step (l := l) (a := .worker false) rfl, ?_⟩
    simp [remaining]
  | drain =>
    refine ⟨.worker false, _, rfl, h.of_step (l := l) (a := .worker false) rfl, ?_⟩
    simp [remaining]
  | exited =>
    cases main with
    | started => exact absurd rfl h.main
    | stopped => exact ⟨.main, _, rfl, h.of_step (l := l) (a := .main) rfl, by simp [remaining]⟩
    | joined => exact absurd rfl hmain

theorem Final.stopHolds (h : Final s) : StopHolds l cpuAffinity s where
  flag := h.flag
  test hw work t ht := by
    change workerStep l work s = some t at ht
    simp only [workerStep, hw, h.flag] at ht
    cases ht
    cases l.drains <;> exact nofun
  join := by
    obtain ⟨as, t, hrun, -, hjoined⟩ := (machine l cpuAffinity).exec_reaches remaining
      (fun _ hs hmain => hs.progress hmain) h
    exact ⟨as, t, hrun, hjoined⟩

/-- A store of true that is still to come is carried out by the worker alone. -/
theorem exec_storeTrue (l : Loop) (cpuAffinity : Bool)
    (hpending : .storeTrue ∈ s.worker.pending) :
    ∃ as t, (machine l cpuAffinity).exec s as = some t ∧ t.main = s.main ∧ t.running = true := by
  let I (t : State) := t.main = s.main ∧ (t.running = true ∨ .storeTrue ∈ t.worker.pending)
  have hstep : ∀ t, I t → ¬ t.running = true →
      ∃ a u, step l t a = some u ∧ I u ∧ u.worker.pending.length < t.worker.pending.length := by
    rintro ⟨running, worker, main⟩ ⟨hmain, hmem⟩ hnot
    have hmem := hmem.resolve_left hnot
    cases worker with
    | starting op ops =>
      refine ⟨.worker false, _, rfl, ⟨hmain, ?_⟩, by simp⟩
      rcases List.mem_cons.mp hmem with rfl | hmem
      · exact .inl rfl
      · exact .inr (by simpa using hmem)
    | test | body | drain | exited => cases hmem
  obtain ⟨as, t, hrun, ⟨hmain, -⟩, hflag⟩ :=
    (machine l cpuAffinity).exec_reaches _ hstep ⟨rfl, .inr hpending⟩
  exact ⟨as, t, hrun, hmain, hflag⟩

/-- A request to stop is kept, whatever the threads do afterwards, exactly when `Run` has stored
true before it. -/
theorem stop_holds_iff (l : Loop) (cpuAffinity : Bool) (s : State) (hmain : s.main = .started) :
    (∀ as t, (machine l cpuAffinity).exec s (.main :: as) = some t →
      StopHolds l cpuAffinity t) ↔ .storeTrue ∉ s.worker.pending := by
  have hstop : step l s .main = some { s with running := false, main := .stopped } := by
    change mainStep s = _
    rw [mainStep, hmain]
  constructor
  · intro h hpending
    obtain ⟨as, t, hrun, -, hflag⟩ := exec_storeTrue l cpuAffinity
      (s := { s with running := false, main := .stopped }) hpending
    have hholds := h as t ((machine l cpuAffinity).exec_cons_iff.mpr ⟨_, hstop, hrun⟩)
    rw [hholds.flag] at hflag
    cases hflag
  · intro hstored as t hrun
    obtain ⟨u, hu, hrun⟩ := (machine l cpuAffinity).exec_cons_iff.mp hrun
    cases hstop.symm.trans hu
    have hstart : Final { s with running := false, main := .stopped } := ⟨nofun, rfl, hstored⟩
    have hfinal : Final t := (machine l cpuAffinity).exec_invariant (C := fun _ _ => True)
      (fun _ _ _ hs _ hstep => hs.of_step hstep) hstart (machine l cpuAffinity).along_true hrun
    exact hfinal.stopHolds

/-- The pub worker, stopped in the first pass of its loop. -/
theorem pubWorker_firstPass_stop_holds :
    (machine .pubWorker true).exec (init .pubWorker true) (List.replicate 6 (.worker false)) =
      some ⟨true, .body, .started⟩ ∧
    ∀ as t, (machine .pubWorker true).exec ⟨true, .body, .started⟩ (.main :: as) = some t →
      StopHolds .pubWorker true t :=
  ⟨by decide, (stop_holds_iff .pubWorker true ⟨true, .body, .started⟩ rfl).mpr nofun⟩

/-- `Stop` has returned from its store, but the flag is true and the worker in its loop. -/
structure Undone (s : State) : Prop where
  flag : s.running = true
  main : s.main = .stopped
  worker : s.worker ≠ .drain ∧ s.worker ≠ .exited

theorem Undone.of_step {a : Action} (h : Undone s) (hs : step l s a = some t) : Undone t := by
  obtain ⟨running, worker, main⟩ := s
  obtain ⟨rfl, rfl, hdrain, hexited⟩ := h
  cases a with
  | main =>
    change (if worker = .exited then _ else none) = some t at hs
    rw [if_neg hexited] at hs
    cases hs
  | worker work =>
    cases worker with
    | starting op ops =>
      cases hs
      exact ⟨ite_self _, rfl, by cases ops <;> exact ⟨nofun, nofun⟩⟩
    | test | body => cases hs; exact ⟨rfl, rfl, nofun, nofun⟩
    | drain => exact absurd rfl hdrain
    | exited => exact absurd rfl hexited

/-- Nobody is left to store false, and the join never returns. -/
theorem Undone.never_joined (h : Undone s) (hrun : (machine l cpuAffinity).exec s as = some t) :
    t.main ≠ .joined := by
  have hundone : Undone t := (machine l cpuAffinity).exec_invariant (C := fun _ _ => True)
    (fun _ _ _ hs _ hstep => hs.of_step hstep) h (machine l cpuAffinity).along_true hrun
  rw [hundone.main]
  exact nofun

/-- A `Stop` right after the thread has been created, in each of the loops: `Run` stores true behind
it, and the join never returns. -/
theorem exec_earlyStop (l : Loop) :
    ∃ s, (machine l true).exec (init l true)
        (.main :: List.replicate (1 + l.beforeLoop.length) (.worker false)) = some s ∧
      s.running = true ∧ s.main = .stopped ∧
      ∀ as t, (machine l true).exec s as = some t → t.main ≠ .joined := by
  refine ⟨⟨true, .test, .stopped⟩, by cases l <;> decide, rfl, rfl, fun as t hrun => ?_⟩
  have hundone : Undone ⟨true, .test, .stopped⟩ := ⟨rfl, rfl, nofun, nofun⟩
  exact hundone.never_joined hrun

/-- The pub worker, stopped before its thread has done anything. -/
theorem early_stop_undone :
    ∃ s, (machine .pubWorker true).exec (init .pubWorker true)
        (.main :: List.replicate 5 (.worker false)) = some s ∧
      s.running = true ∧ s.main = .stopped ∧
      ∀ as t, (machine .pubWorker true).exec s as = some t → t.main ≠ .joined :=
  exec_earlyStop .pubWorker

end WorkerLoop

end Sqc
