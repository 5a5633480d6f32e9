import SmartQuantCollector.Exchange.Rithmic.ProcessManager

/-! # Supervision of the gateway

The monitor polls `CheckHealth`, the gateway stores heartbeats or ends, and time passes. The steps
come in any order and number, so the gateway may hang, crash and be restarted at any moment, and its
first heartbeat (after the login) may be as late as it likes.

`heartbeat_ns` lives in the shared memory, which outlives the gateway, and `SpawnChild` does not
clear it. `killsJustified_iff_graceKept` says which polls are the ones that kill a gateway before
its time. -/

namespace Sqc
open Concurrency

namespace ProcessManager

variable (cfg : Config)

/-- The end of `CheckHealth`, for a child that is dead. -/
def restart (s : State) (spawned : Option Pid) : Option State :=
  let (s, ok) := rateLimit cfg s
  if ok then respawn s spawned else some s

/-- `CheckHealth`, with what `posix_spawn` answers should it come to that. -/
def checkHealth (s : State) (spawned : Option Pid) : Option State :=
  match probe s with
  | (s, true) =>
    if heartbeatExpired cfg s.nowNs s.heartbeatNs then restart cfg (killSection s) spawned
    else some s
  | (s, false) => restart cfg s spawned

namespace Supervision

inductive Action where
  /-- An iteration of the monitor's loop. -/
  | checkHealth (spawned : Option Pid)
  | heartbeat (pid : Pid)
  | childExit (pid : Pid)
  | elapse (ns : Nat)

def Action.isCheckHealth : Action → Bool
  | .checkHealth _ => true
  | _ => false

def step (s : State) : Action → Option State
  | .checkHealth r => if s.monitorRunning then ProcessManager.checkHealth cfg s r else none
  | .heartbeat pid => ProcessManager.heartbeat s pid
  | .childExit pid => ProcessManager.childExit s pid
  | .elapse ns => ProcessManager.elapse s ns

def machine (built start : Nat) (pid : Pid) : Machine State Action where
  init := afterSetup built start pid
  step := step cfg

/-! ## Justified kills -/

/-- More than `heartbeat_timeout_sec` seconds since the gateway was spawned, and since its own last
heartbeat if it has sent one. -/
def Kill.Justified (k : Kill) : Prop :=
  cfg.heartbeatTimeoutSec.toNat * nsPerSec < k.time - k.child.spawnedAt ∧
  ∀ b ∈ k.child.lastBeat, cfg.heartbeatTimeoutSec.toNat * nsPerSec < k.time - b

def KillsJustified (s : State) : Prop := ∀ k ∈ s.killed, Kill.Justified cfg k

instance : DecidablePred (Kill.Justified cfg) := fun k => by
  unfold Kill.Justified; infer_instance

instance : DecidablePred (KillsJustified cfg) := fun s => by
  unfold KillsJustified; infer_instance

/-- A poll that finds a gateway without a heartbeat of its own finds a word that no gateway has
written or that is at most `heartbeat_timeout_sec` seconds old, unless the gateway itself is older
than that. -/
def GraceKept (s : State) (a : Action) : Prop :=
  a.isCheckHealth = true → ∀ c ∈ s.liveChild, c.lastBeat = none →
    s.heartbeatNs = 0 ∨
    (s.now - s.heartbeatNs.toNat) / nsPerSec ≤ cfg.heartbeatTimeoutSec.toNat ∨
    cfg.heartbeatTimeoutSec.toNat * nsPerSec < s.now - c.spawnedAt

instance (s : State) (a : Action) : Decidable (GraceKept cfg s a) := by
  unfold GraceKept; infer_instance

/-! ## The invariant -/

structure Inv (s : State) : Prop where
  now_lt : s.now < 2 ^ 63
  heartbeat_le : s.heartbeatNs.toNat ≤ s.now
  tracked : s.Tracked
  spawned_le : s.processes pid = .child c → c.spawnedAt ≤ s.now
  /-- The word holds the last heartbeat of the present child, if that has sent one. -/
  lastBeat : s.processes pid = .child c → c.lastBeat = some b →
    c.spawnedAt ≤ b ∧ s.heartbeatNs.toNat = b

variable {cfg} {s t : State}

theorem nowNs_toNat (h : s.now < 2 ^ 63) : s.nowNs.toNat = s.now := by
  rw [State.nowNs, UInt64.toNat_ofNat', Nat.mod_eq_of_lt (h.trans (by decide))]

theorem Inv.afterSetup {built start : Nat} {pid : Pid} (h : start < 2 ^ 63) :
    Inv (afterSetup built start pid) := by
  have hchild : ∀ {p c}, (ProcessManager.afterSetup built start pid).processes p = .child c →
      p = pid ∧ c = ⟨start, none, true⟩ := by
    intro p c hc
    simp only [ProcessManager.afterSetup, Function.update_apply] at hc
    split at hc
    · cases hc; exact ⟨‹_›, rfl⟩
    · cases hc
  refine ⟨h, Nat.zero_le _, ?_, ?_, ?_⟩
  · intro p c hc
    rw [(hchild hc).1]; rfl
  · intro p c hc
    rw [(hchild hc).2]; exact Nat.le_refl _
  · intro p c b hc hb
    rw [(hchild hc).2] at hb; cases hb

/-- The heartbeat test on an intact word. -/
theorem Inv.expired_iff (h : Inv s) :
    heartbeatExpired cfg s.nowNs s.heartbeatNs = true ↔
      s.heartbeatNs ≠ 0 ∧
        cfg.heartbeatTimeoutSec.toNat < (s.now - s.heartbeatNs.toNat) / nsPerSec := by
  have hpos : s.heartbeatNs > 0 ↔ s.heartbeatNs ≠ 0 := UInt64.pos_iff_ne_zero
  have hsub : (s.nowNs - s.heartbeatNs).toNat = s.now - s.heartbeatNs.toNat := by
    rw [UInt64.toNat_sub_of_le _ _ (UInt64.le_iff_toNat_le.mpr (by
      rw [nowNs_toNat h.now_lt]; exact h.heartbeat_le)), nowNs_toNat h.now_lt]
  have hgt : (s.nowNs - s.heartbeatNs) / .ofNat nsPerSec > cfg.heartbeatTimeoutSec.toUInt64 ↔
      cfg.heartbeatTimeoutSec.toNat < (s.now - s.heartbeatNs.toNat) / nsPerSec := by
    rw [gt_iff_lt, UInt64.lt_iff_toNat_lt, UInt32.toNat_toUInt64, UInt64.toNat_div, hsub]
    rfl
  rw [heartbeatExpired, Bool.and_eq_true, decide_eq_true_iff, decide_eq_true_iff, hpos, hgt]

/-! ## `CheckHealth` -/

/-- The children of `t` replace those of `s`: at most one, and it has just been spawned. -/
structure Replaced (s t : State) : Prop where
  now : t.now = s.now
  heartbeatNs : t.heartbeatNs = s.heartbeatNs
  child : t.processes pid = .child c → t.childPid = some pid ∧ c = ⟨s.now, none, true⟩

theorem Inv.replaced (h : Inv s) (ht : Replaced s t) : Inv t where
  now_lt := ht.now ▸ h.now_lt
  heartbeat_le := by rw [ht.now, ht.heartbeatNs]; exact h.heartbeat_le
  tracked pid c hc := (ht.child hc).1
  spawned_le hc := by rw [(ht.child hc).2, ht.now]
  lastBeat hc hb := by rw [(ht.child hc).2] at hb; cases hb

theorem restart_spec {r : Option Pid} (hc : s.childPid = none)
    (hs : ∀ pid c, s.processes pid ≠ .child c) (h : restart cfg s r = some t) :
    Replaced s t ∧ t.killed = s.killed := by
  obtain ⟨m, l, n, ok, hlim, -⟩ := rateLimit_eq cfg s
  rw [restart, hlim] at h
  have hnone : ∀ {pid c}, s.processes pid = .child c →
      s.childPid = some pid ∧ c = ⟨s.now, none, true⟩ := fun hp => absurd hp (hs _ _)
  cases ok with
  | false => cases h; exact ⟨⟨rfl, rfl, hnone⟩, rfl⟩
  | true =>
    rcases respawn_eq_some (by exact hc) h with ⟨-, rfl⟩ | ⟨pid, -, -, rfl⟩
    · exact ⟨⟨rfl, rfl, hnone⟩, rfl⟩
    · refine ⟨⟨rfl, rfl, ?_⟩, rfl⟩
      intro pid' c hp
      simp only [State.setProcess, Function.update_apply] at hp
      split at hp
      · next heq => cases hp; exact ⟨congrArg some heq.symm, rfl⟩
      · exact absurd hp (hs _ _)

variable (cfg) in
/-- The kill a poll in `s` makes. -/
def kills (s : State) : List Kill :=
  match s.liveChild with
  | some c => if heartbeatExpired cfg s.nowNs s.heartbeatNs then [⟨c, s.now⟩] else []
  | none => []

theorem checkHealth_spec {r : Option Pid} (h : s.Tracked) (ht : checkHealth cfg s r = some t) :
    (t = s ∨ Replaced s t) ∧ t.killed = s.killed ++ kills cfg s := by
  rw [checkHealth] at ht
  rcases probe_cases h with ⟨c, hc, hp⟩ | ⟨hc, ps, hp, hps⟩
  · rw [hp] at ht
    dsimp only at ht
    split at ht
    · next hexp =>
      obtain ⟨ps, hk, hps⟩ := killSection_eq h
      rw [hk] at ht
      obtain ⟨hrep, hkilled⟩ := restart_spec (by rfl) hps ht
      refine ⟨.inr ⟨hrep.now, hrep.heartbeatNs, hrep.child⟩, ?_⟩
      rw [hkilled, kills, hc]
      dsimp only
      rw [if_pos hexp, killRecord_of_live hc]
    · next hexp =>
      cases ht
      refine ⟨.inl rfl, ?_⟩
      rw [kills, hc]
      dsimp only
      rw [if_neg hexp, List.append_nil]
  · rw [hp] at ht
    obtain ⟨hrep, hkilled⟩ := restart_spec (by rfl) hps ht
    refine ⟨.inr ⟨hrep.now, hrep.heartbeatNs, hrep.child⟩, ?_⟩
    rw [hkilled, kills, hc, List.append_nil]

/-- The kill of a poll is justified just in case the poll respects the grace period: what the code
tests is the age of the word, and that is the age of the child's own heartbeat once it has one. -/
theorem Inv.kills_justified_iff (h : Inv s) (r : Option Pid) :
    (∀ k ∈ kills cfg s, Kill.Justified cfg k) ↔ GraceKept cfg s (.checkHealth r) := by
  have hsec : ∀ {n d : Nat}, n < d / nsPerSec → n * nsPerSec < d := fun {n d} hlt =>
    Nat.lt_of_lt_of_le (Nat.mul_lt_mul_of_pos_right hlt (by decide))
      (Nat.div_mul_le_self d nsPerSec)
  cases hc : s.liveChild with
  | none => simp [kills, GraceKept, hc]
  | some c =>
    obtain ⟨pid, -, hp, -⟩ := liveChild_eq_some.mp hc
    simp only [kills, GraceKept, hc, Option.mem_some_iff, forall_eq', Action.isCheckHealth,
      forall_const]
    by_cases hexp : heartbeatExpired cfg s.nowNs s.heartbeatNs = true
    · obtain ⟨hne, hlt⟩ := h.expired_iff.mp hexp
      rw [if_pos hexp]
      simp only [List.mem_singleton, forall_eq, Kill.Justified, hne, false_or, Nat.not_le.mpr hlt]
      cases hb : c.lastBeat with
      | none => simp
      | some b =>
        obtain ⟨hle, hword⟩ := h.lastBeat hp hb
        have hbeat := hsec hlt
        rw [hword] at hbeat
        simp only [Option.mem_some_iff, forall_eq', hbeat, and_true, reduceCtorEq, false_implies,
          iff_true]
        omega
    · rw [if_neg hexp]
      have : s.heartbeatNs = 0 ∨
          (s.now - s.heartbeatNs.toNat) / nsPerSec ≤ cfg.heartbeatTimeoutSec.toNat := by
        by_contra hcon
        rw [not_or, Nat.not_le] at hcon
        exact hexp (h.expired_iff.mpr hcon)
      refine ⟨fun _ _ => ?_, fun _ k hk => absurd hk List.not_mem_nil⟩
      rcases this with hz | hle
      · exact .inl hz
      · exact .inr (.inl hle)

/-! ## Runs -/

theorem Inv.heartbeat {pid : Pid} (h : Inv s) (ht : ProcessManager.heartbeat s pid = some t) :
    Inv t := by
  obtain ⟨c, hc, ha, rfl⟩ := heartbeat_eq_some ht
  have hnow : s.nowNs.toNat = s.now := nowNs_toNat h.now_lt
  have hle : c.spawnedAt ≤ s.now := h.spawned_le hc
  -- The writer is the only child there is.
  have hchild : ∀ {p c'}, Function.update s.processes pid
      (.child { c with lastBeat := some s.now }) p = .child c' →
      p = pid ∧ c' = { c with lastBeat := some s.now } := by
    intro p c' hp
    rw [Function.update_apply] at hp
    split at hp
    · cases hp; exact ⟨‹_›, rfl⟩
    · next hne => exact absurd (Option.some.inj ((h.tracked hp).symm.trans (h.tracked hc))) hne
  refine ⟨h.now_lt, hnow.le, ?_, ?_, ?_⟩
  · intro p c' hp
    rw [(hchild hp).1]; exact h.tracked hc
  · intro p c' hp
    rw [(hchild hp).2]; exact hle
  · intro p c' b hp hb
    rw [(hchild hp).2] at hb ⊢
    cases hb
    exact ⟨hle, hnow⟩

theorem Inv.childExit {pid : Pid} (h : Inv s) (ht : ProcessManager.childExit s pid = some t) :
    Inv t := by
  obtain ⟨c, hc, ha, rfl⟩ := childExit_eq_some ht
  have hchild : ∀ {p c'}, (s.setProcess pid (.child { c with alive := false })).processes p =
      .child c' → ∃ c, s.processes p = .child c ∧ c'.spawnedAt = c.spawnedAt ∧
        c'.lastBeat = c.lastBeat := by
    intro p c' hp
    simp only [State.setProcess, Function.update_apply] at hp
    split at hp
    · next heq => cases hp; exact ⟨c, heq ▸ hc, rfl, rfl⟩
    · exact ⟨c', hp, rfl, rfl⟩
  refine ⟨h.now_lt, h.heartbeat_le, ?_, ?_, ?_⟩
  · intro p c' hp
    obtain ⟨c, hp, -⟩ := hchild hp
    exact h.tracked hp
  · intro p c' hp
    obtain ⟨c, hp, hs, -⟩ := hchild hp
    rw [hs]; exact h.spawned_le hp
  · intro p c' b hp hb
    obtain ⟨c, hp, hs, hl⟩ := hchild hp
    rw [hs]; exact h.lastBeat hp (hl ▸ hb)

theorem Inv.elapse {d : Nat} (h : Inv s) (ht : ProcessManager.elapse s d = some t) : Inv t := by
  obtain ⟨hlt, rfl⟩ := elapse_eq_some ht
  exact ⟨hlt, h.heartbeat_le.trans (Nat.le_add_right _ _), h.tracked,
    fun hp => (h.spawned_le hp).trans (Nat.le_add_right _ _), h.lastBeat⟩

theorem Inv.step {a : Action} (h : Inv s) (ht : Supervision.step cfg s a = some t) : Inv t := by
  cases a with
  | checkHealth r =>
    simp only [Supervision.step, Option.ite_none_right_eq_some] at ht
    rcases (checkHealth_spec h.tracked ht.2).1 with rfl | hrep
    · exact h
    · exact h.replaced hrep
  | heartbeat pid => exact h.heartbeat ht
  | childExit pid => exact h.childExit ht
  | elapse ns => exact h.elapse ht

/-- A step keeps all kills justified just in case it respects the grace period. -/
theorem Inv.killsJustified_step {a : Action} (h : Inv s)
    (ht : Supervision.step cfg s a = some t) :
    KillsJustified cfg t ↔ KillsJustified cfg s ∧ GraceKept cfg s a := by
  -- The other steps do not touch the record.
  have hsame : t.killed = s.killed → a.isCheckHealth = false →
      (KillsJustified cfg t ↔ KillsJustified cfg s ∧ GraceKept cfg s a) := by
    intro hk ha
    simp [KillsJustified, GraceKept, hk, ha]
  cases a with
  | checkHealth r =>
    simp only [Supervision.step, Option.ite_none_right_eq_some] at ht
    rw [KillsJustified, (checkHealth_spec h.tracked ht.2).2, List.forall_mem_append,
      h.kills_justified_iff r]
    exact Iff.rfl
  | heartbeat pid =>
    obtain ⟨c, -, -, rfl⟩ := heartbeat_eq_some ht
    exact hsame rfl rfl
  | childExit pid =>
    obtain ⟨c, -, -, rfl⟩ := childExit_eq_some ht
    exact hsame rfl rfl
  | elapse ns =>
    obtain ⟨-, rfl⟩ := elapse_eq_some ht
    exact hsame rfl rfl

/-- In every run the kills of `CheckHealth` are justified exactly when every poll respects the grace
period of a gateway that has not yet sent a heartbeat. -/
theorem killsJustified_iff_graceKept {built start : Nat} {pid : Pid} {as : List Action}
    (hstart : start < 2 ^ 63)
    (hrun : (machine cfg built start pid).exec (afterSetup built start pid) as = some t) :
    KillsJustified cfg t ↔
      (machine cfg built start pid).Along (GraceKept cfg) (afterSetup built start pid) as := by
  rw [(machine cfg built start pid).exec_iff (fun _ _ _ => Inv.step)
    (fun _ _ _ => Inv.killsJustified_step) (Inv.afterSetup hstart) hrun]
  exact and_iff_right fun k hk => absurd hk List.not_mem_nil

/-- The first gateway crashes one second after a heartbeat, the second one logs in, hangs, and is
killed in time. -/
def crashThenHang : List Action :=
  [.elapse 1000000000, .heartbeat 1, .elapse 1000000000, .childExit 1, .checkHealth (some 2),
    .elapse 500000000, .checkHealth none, .heartbeat 2, .elapse 11000000000,
    .checkHealth (some 3)]

theorem crashThenHang_justified :
    ((machine {} 0 0 1).exec (afterSetup 0 0 1) crashThenHang).map (·.killed.length) = some 1 ∧
    ∀ t ∈ (machine {} 0 0 1).exec (afterSetup 0 0 1) crashThenHang, KillsJustified {} t :=
  ⟨rfl, fun _ ht => (killsJustified_iff_graceKept (by decide) ht).mpr (by decide)⟩

/-- The first gateway hangs after its heartbeat and is replaced eleven seconds later. The next poll,
half a second after that, finds the old heartbeat and kills the new gateway. -/
theorem stale_heartbeat_kills_new_gateway :
    ∃ t, (machine {} 0 0 1).exec (afterSetup 0 0 1)
        [.elapse 1000000000, .heartbeat 1, .elapse 11000000000, .checkHealth (some 2),
          .elapse 500000000, .checkHealth (some 3)] = some t ∧
      ¬ KillsJustified {} t :=
  ⟨_, rfl, by decide⟩

end Supervision

end ProcessManager

end Sqc
