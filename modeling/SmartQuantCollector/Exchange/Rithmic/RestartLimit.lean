import SmartQuantCollector.Lib.WindowCount
import SmartQuantCollector.Exchange.Rithmic.ProcessManager

/-! # The restart limit (`RithmicProcessManager::CheckHealth`)

`max_restarts_per_min` bounds the restarts in a minute; what `CheckHealth` keeps is the time of the
last restart and the number of restarts since the last pause of a minute. The attempts are taken as
a sequence of times at which the child is found dead. It ends when `CheckHealth` gives up, as the
monitor's loop does.

`limitKept_iff_spaced` says for which sequences the counter and the minute agree. -/

namespace Sqc
open Concurrency WindowCount

namespace ProcessManager

namespace RestartLimit

def minute : Nat := 60 * nsPerSec

/-- The child is found dead at time `t`. -/
def attempt (cfg : Config) (s : State) (t : Nat) : Option State :=
  if s.monitorRunning && s.now ≤ t then some (rateLimit cfg { s with now := t }).1 else none

/-- The manager was built at time `built`, and `Setup` took `d` nanoseconds. -/
def machine (cfg : Config) (built d : Nat) (pid : Pid) : Machine State Nat where
  init := afterSetup built (built + d) pid
  step := attempt cfg

/-! ## The limit -/

/-- A spawn is a call of `SpawnChild`, whether or not `posix_spawn` succeeds: every attempt makes
one, except for the one at which `CheckHealth` gives up. -/
def spawns (ts : List Nat) (s : State) : List Nat := if s.monitorRunning then ts else ts.dropLast

structure LimitKept (max : Nat) (ts : List Nat) (s : State) : Prop where
  /-- `CheckHealth` gives up only after more than `max` attempts in the minute that ends then. -/
  giveUp : s.monitorRunning = false → ∀ t ∈ ts.getLast?,
    max < ts.countP fun u => t < u + minute && u ≤ t
  /-- No minute has more than `max` spawns. -/
  window : ∀ x, (spawns ts s).countP (fun u => x ≤ u && u < x + minute) ≤ max

/-- The time of attempt `i`, counted from 1; attempt 0 is the construction. -/
def timeOf (built : Nat) (ts : List Nat) (i : Nat) : Nat := (built :: ts).getD i 0

/-- Attempt `k` comes less than a minute after the one before. -/
def Short (built : Nat) (ts : List Nat) (k : Nat) : Prop :=
  timeOf built ts k < timeOf built ts (k - 1) + minute

/-- What the attempts have to be like: `max + 1` of them that follow each other within a minute fall
into one minute, and after a pause of a minute the next `max` take a minute. -/
structure Spaced (max built : Nat) (ts : List Nat) : Prop where
  dense : ∀ i, max + 1 ≤ i → i ≤ ts.length →
    (∀ k, i - max ≤ k → k ≤ i → Short built ts k) →
    timeOf built ts i < timeOf built ts (i - max) + minute
  sparse : ∀ j, 1 ≤ j → j + max ≤ ts.length → ¬ Short built ts j →
    timeOf built ts j + minute ≤ timeOf built ts (j + max)

/-- The counter cannot overflow. -/
def NoOverflow (cfg : Config) (ts : List Nat) : Prop :=
  cfg.maxRestartsPerMin.toNat < 2 ^ 32 - 1 ∨ ts.length < 2 ^ 32

/-! ## The counter -/

variable {cfg : Config} {built d : Nat} {pid : Pid} {ts : List Nat} {s s' : State} {t : Nat}

theorem timeOf_append_of_le {rest : List Nat} {i : Nat} (hi : i ≤ ts.length) :
    timeOf built (ts ++ rest) i = timeOf built ts i := by
  rw [timeOf, timeOf, List.getD_eq_getElem?_getD, List.getD_eq_getElem?_getD, ← List.cons_append,
    List.getElem?_append_left (by rw [List.length_cons]; omega)]

theorem timeOf_append_length : timeOf built (ts ++ [t]) (ts.length + 1) = t := by
  simp [timeOf]

theorem short_append_of_le {k : Nat} (hk : k ≤ ts.length) :
    Short built (ts ++ [t]) k ↔ Short built ts k := by
  unfold Short
  rw [timeOf_append_of_le hk, timeOf_append_of_le (by omega)]

theorem short_append_length :
    Short built (ts ++ [t]) (ts.length + 1) ↔ t < timeOf built ts ts.length + minute := by
  unfold Short
  rw [timeOf_append_length, Nat.add_sub_cancel, timeOf_append_of_le (Nat.le_refl _)]

/-- The `max + 1` attempts up to `i` follow each other within a minute. -/
def Streak (max built : Nat) (ts : List Nat) (i : Nat) : Prop :=
  max + 1 ≤ i ∧ ∀ k, i - max ≤ k → k ≤ i → Short built ts k

theorem streak_append_of_le {max i : Nat} (hi : i ≤ ts.length) :
    Streak max built (ts ++ [t]) i ↔ Streak max built ts i := by
  unfold Streak
  refine and_congr_right fun _ => forall_congr' fun k => forall_congr' fun _ =>
    forall_congr' fun hk => short_append_of_le (hk.trans hi)

/-- `restart_count_` is the number `c` of short pauses in a row, up to the last attempt. -/
structure Counts (built : Nat) (ts : List Nat) (c : Nat) : Prop where
  le : c ≤ ts.length
  short : ∀ k, ts.length - c < k → k ≤ ts.length → Short built ts k
  pause : c < ts.length → ¬ Short built ts (ts.length - c)

theorem Counts.succ {c : Nat} (h : Counts built ts c)
    (ht : t < timeOf built ts ts.length + minute) : Counts built (ts ++ [t]) (c + 1) where
  le := by rw [List.length_append]; exact Nat.succ_le_succ h.le
  short k hk hle := by
    simp only [List.length_append, List.length_singleton] at hk hle
    rcases Nat.lt_or_ge ts.length k with hlt | hge
    · obtain rfl : k = ts.length + 1 := by omega
      exact short_append_length.mpr ht
    · exact (short_append_of_le hge).mpr (h.short k (by omega) hge)
  pause hlt := by
    simp only [List.length_append, List.length_singleton] at hlt ⊢
    rw [Nat.add_sub_add_right, short_append_of_le (Nat.sub_le ..)]
    exact h.pause (by omega)

theorem Counts.zero (ht : ¬ t < timeOf built ts ts.length + minute) :
    Counts built (ts ++ [t]) 0 where
  le := Nat.zero_le _
  short k hk hle := by omega
  pause _ := by
    rw [Nat.sub_zero, List.length_append]
    exact fun h => ht (short_append_length.mp h)

/-- A streak of `max + 1` ends at the last attempt just in case more than `max` are counted. -/
theorem Counts.streak_iff {c max : Nat} (h : Counts built ts c) :
    Streak max built ts ts.length ↔ max < c := by
  constructor
  · rintro ⟨hlen, hshort⟩
    by_contra hle
    exact h.pause (by omega) (hshort (ts.length - c) (by omega) (Nat.sub_le ..))
  · intro hlt
    have := h.le
    exact ⟨by omega, fun k hk hle => h.short k (by omega) hle⟩

/-- What the state says about the attempts so far. -/
structure History (cfg : Config) (built : Nat) (ts : List Nat) (s : State) : Prop where
  sorted : (built :: ts).Pairwise (· ≤ ·)
  le_now : ∀ u ∈ built :: ts, u ≤ s.now
  last : s.monitorRunning = true → s.lastRestart = timeOf built ts ts.length
  count : s.monitorRunning = true → Counts built ts s.restartCount.toNat ∧
    s.restartCount ≤ cfg.maxRestartsPerMin
  streak : ∀ i ≤ ts.length, Streak cfg.maxRestartsPerMin.toNat built ts i ↔
    i = ts.length ∧ s.monitorRunning = false

theorem History.init (cfg : Config) (built d : Nat) (pid : Pid) :
    History cfg built [] (afterSetup built (built + d) pid) where
  sorted := List.pairwise_singleton ..
  le_now u hu := by
    rw [List.mem_singleton.mp hu]
    exact Nat.le_add_right ..
  last _ := rfl
  count _ := ⟨⟨Nat.le_refl 0, fun k hk hle => absurd (Nat.lt_of_lt_of_le hk hle) (Nat.lt_irrefl 0),
    fun h => absurd h (Nat.lt_irrefl 0)⟩, UInt32.zero_le⟩
  streak i hi := by
    refine iff_of_false (fun h => ?_) nofun
    have := h.1
    have : i ≤ 0 := hi
    omega

/-- The three ways in which an attempt can end. -/
inductive Attempt (cfg : Config) (s : State) (t : Nat) : State → Prop where
  | giveUp (hshort : t < s.lastRestart + minute)
      (hcount : cfg.maxRestartsPerMin < s.restartCount + 1) :
    Attempt cfg s t { s with
      now := t, restartCount := s.restartCount + 1, monitorRunning := false }
  | again (hshort : t < s.lastRestart + minute)
      (hcount : s.restartCount + 1 ≤ cfg.maxRestartsPerMin) :
    Attempt cfg s t { s with now := t, restartCount := s.restartCount + 1, lastRestart := t }
  | afterPause (hpause : ¬ t < s.lastRestart + minute) :
    Attempt cfg s t { s with now := t, restartCount := 0, lastRestart := t }

theorem attempt_cases (hlast : s.lastRestart ≤ s.now) (h : attempt cfg s t = some s') :
    s.monitorRunning = true ∧ s.now ≤ t ∧ Attempt cfg s t s' := by
  unfold attempt at h
  split at h
  · next hcond =>
    obtain ⟨hrun, hle⟩ := Bool.and_eq_true_iff.mp hcond
    have hle : s.now ≤ t := of_decide_eq_true hle
    refine ⟨hrun, hle, ?_⟩
    cases h
    have hdiv : (t - s.lastRestart) / nsPerSec < 60 ↔ t < s.lastRestart + minute := by
      rw [Nat.div_lt_iff_lt_mul (by decide)]
      unfold minute
      omega
    unfold rateLimit
    dsimp only
    by_cases hshort : t < s.lastRestart + minute
    · rw [if_pos (hdiv.mpr hshort)]
      by_cases hcount : cfg.maxRestartsPerMin < s.restartCount + 1
      · rw [if_pos hcount]
        exact .giveUp hshort hcount
      · rw [if_neg hcount]
        exact .again hshort (UInt32.not_lt.mp hcount)
    · rw [if_neg (fun hd => hshort (hdiv.mp hd))]
      exact .afterPause hshort
  · cases h

theorem timeOf_mem {i : Nat} (hi : i ≤ ts.length) : timeOf built ts i ∈ built :: ts := by
  have hlt : i < (built :: ts).length := by rw [List.length_cons]; omega
  rw [timeOf, List.getD_eq_getElem?_getD, List.getElem?_eq_getElem hlt, Option.getD_some]
  exact List.getElem_mem hlt

/-- The counter does not overflow as long as the attempts do not. -/
theorem Counts.toNat_succ {n : UInt32} (h : Counts built ts n.toNat)
    (hle : n ≤ cfg.maxRestartsPerMin) (hover : NoOverflow cfg (ts ++ [t])) :
    (n + 1).toNat = n.toNat + 1 := by
  have := UInt32.le_iff_toNat_le.mp hle
  have := h.le
  have := cfg.maxRestartsPerMin.toNat_lt
  rw [UInt32.toNat_add, UInt32.toNat_one, Nat.mod_eq_of_lt]
  rcases hover with hmax | hlen
  · omega
  · rw [List.length_append, List.length_singleton] at hlen
    omega

theorem History.attempt (h : History cfg built ts s) (hover : NoOverflow cfg (ts ++ [t]))
    (hstep : attempt cfg s t = some s') : History cfg built (ts ++ [t]) s' := by
  have hmem : timeOf built ts ts.length ∈ built :: ts := timeOf_mem (Nat.le_refl _)
  have hrun : s.monitorRunning = true := by
    unfold RestartLimit.attempt at hstep
    split at hstep
    · next hcond => exact (Bool.and_eq_true_iff.mp hcond).1
    · cases hstep
  have hlast := h.last hrun
  obtain ⟨-, hle, hatt⟩ := attempt_cases (hlast ▸ h.le_now _ hmem) hstep
  obtain ⟨hcounts, hmax⟩ := h.count hrun
  have hnext := hcounts.toNat_succ hmax hover
  have hlen : (ts ++ [t]).length = ts.length + 1 := by simp
  have hle_t : ∀ u ∈ built :: ts, u ≤ t := fun u hu => (h.le_now u hu).trans hle
  have hsorted : (built :: (ts ++ [t])).Pairwise (· ≤ ·) := by
    rw [← List.cons_append, List.pairwise_append]
    refine ⟨h.sorted, List.pairwise_singleton .., fun u hu v hv => ?_⟩
    rw [List.mem_singleton.mp hv]
    exact hle_t u hu
  have hle_now : ∀ u ∈ built :: (ts ++ [t]), u ≤ t := by
    rw [← List.cons_append]
    exact List.forall_mem_append.mpr ⟨hle_t, List.forall_mem_singleton.mpr (Nat.le_refl t)⟩
  -- the streaks of earlier attempts are those of before, and the monitor was running then
  have hstreak : ∀ {c}, Counts built (ts ++ [t]) c → ∀ stopped : Prop,
      (cfg.maxRestartsPerMin.toNat < c ↔ stopped) → ∀ i ≤ (ts ++ [t]).length,
      (Streak cfg.maxRestartsPerMin.toNat built (ts ++ [t]) i ↔
        i = (ts ++ [t]).length ∧ stopped) := by
    intro c hc stopped hstop i hi
    rcases Nat.eq_or_lt_of_le hi with rfl | hlt
    · rw [hc.streak_iff, hstop]
      exact (and_iff_right rfl).symm
    · have hi : i ≤ ts.length := by omega
      rw [streak_append_of_le hi, h.streak i hi, hrun]
      exact iff_of_false (fun hf => nomatch hf.2) fun hf => by omega
  cases hatt with
  | giveUp hshort hcount =>
    refine ⟨hsorted, hle_now, nofun, nofun, ?_⟩
    refine hstreak (hcounts.succ (hlast ▸ hshort)) _ (iff_of_true ?_ rfl)
    rw [← hnext]
    exact UInt32.lt_iff_toNat_lt.mp hcount
  | again hshort hcount =>
    have hc := hcounts.succ (hlast ▸ hshort)
    refine ⟨hsorted, hle_now, fun _ => by rw [hlen, timeOf_append_length],
      fun _ => ⟨hnext ▸ hc, hcount⟩, hstreak hc _ (iff_of_false ?_ ?_)⟩
    · rw [← hnext]
      exact Nat.not_lt.mpr (UInt32.le_iff_toNat_le.mp hcount)
    · rw [hrun]; exact nofun
  | afterPause hpause =>
    have hc : Counts built (ts ++ [t]) 0 := Counts.zero (hlast ▸ hpause)
    refine ⟨hsorted, hle_now, fun _ => by rw [hlen, timeOf_append_length],
      fun _ => ⟨hc, UInt32.zero_le⟩, hstreak hc _ (iff_of_false (Nat.not_lt_zero _) ?_)⟩
    rw [hrun]; exact nofun

theorem exec_history (hover : NoOverflow cfg ts)
    (hrun : (machine cfg built d pid).exec (machine cfg built d pid).init ts = some s) :
    History cfg built ts s := by
  have hhist := (machine cfg built d pid).exec_history (C := fun _ _ => True)
    (R := fun ts s => NoOverflow cfg ts → History cfg built ts s)
    (fun ts s t s' hs _ hstep hover => ?_) (fun _ => History.init cfg built d pid)
    (machine cfg built d pid).along_true hrun
  · exact hhist hover
  · have hprev : NoOverflow cfg ts := hover.imp_right fun hlen => by
      rw [List.length_append] at hlen
      omega
    exact (hs hprev).attempt hover hstep

/-! ## The minute -/

theorem timeOf_succ (built : Nat) {j : Nat} (hj : j < ts.length) :
    timeOf built ts (j + 1) = ts[j] := by
  rw [timeOf, List.getD_eq_getElem?_getD, List.getElem?_cons_succ, List.getElem?_eq_getElem hj,
    Option.getD_some]

theorem timeOf_mono (h : (built :: ts).Pairwise (· ≤ ·)) {i j : Nat} (hij : i ≤ j)
    (hj : j ≤ ts.length) : timeOf built ts i ≤ timeOf built ts j := by
  have hlt : j < (built :: ts).length := by rw [List.length_cons]; omega
  rw [timeOf, timeOf, List.getD_eq_getElem?_getD, List.getD_eq_getElem?_getD,
    List.getElem?_eq_getElem hlt, List.getElem?_eq_getElem (Nat.lt_of_le_of_lt hij hlt)]
  exact getElem_le_getElem h hij hlt

/-- Attempts that fall into one minute follow each other within a minute. -/
theorem short_of_lt (h : (built :: ts).Pairwise (· ≤ ·)) {i j k : Nat} (hik : i < k) (hkj : k ≤ j)
    (hj : j ≤ ts.length) (hlt : timeOf built ts j < timeOf built ts i + minute) :
    Short built ts k := by
  have h₁ := timeOf_mono h (show i ≤ k - 1 by omega) (by omega)
  have h₂ := timeOf_mono h hkj hj
  unfold Short
  omega

theorem convex_minute (x : Nat) : Convex fun u : Nat => x ≤ u && u < x + minute := by
  intro a b c hab hbc ha hc
  simp only [Bool.and_eq_true, decide_eq_true_eq] at *
  omega

theorem convex_minuteBefore (t : Nat) : Convex fun u : Nat => t < u + minute && u ≤ t := by
  intro a b c hab hbc ha hc
  simp only [Bool.and_eq_true, decide_eq_true_eq] at *
  omega

theorem giveUp_iff {max : Nat} (h : (built :: ts).Pairwise (· ≤ ·)) (hmax : max + 1 ≤ ts.length) :
    (∀ t ∈ ts.getLast?, max < ts.countP fun u => t < u + minute && u ≤ t) ↔
      timeOf built ts ts.length < timeOf built ts (ts.length - max) + minute := by
  have hlast : ts.getLast? = some (timeOf built ts ts.length) := by
    rw [List.getLast?_eq_getElem?, List.getElem?_eq_getElem (by omega),
      ← timeOf_succ built (by omega), Nat.sub_add_cancel (by omega)]
  rw [hlast]
  simp only [Option.mem_def, Option.some.injEq, forall_eq']
  rw [lt_countP_iff (List.pairwise_cons.mp h).2 (convex_minuteBefore _)]
  simp only [Bool.and_eq_true, decide_eq_true_eq]
  constructor
  · rintro ⟨j, hj, ⟨hfirst, -⟩, -⟩
    rw [← timeOf_succ built (by omega)] at hfirst
    have := timeOf_mono h (show j + 1 ≤ ts.length - max by omega) (by omega)
    omega
  · intro hlt
    refine ⟨ts.length - max - 1, by omega, ⟨?_, ?_⟩, ?_, ?_⟩
    · rwa [← timeOf_succ built (by omega), Nat.sub_add_cancel (by omega)]
    · rw [← timeOf_succ built (by omega)]
      exact timeOf_mono h (by omega) (Nat.le_refl _)
    · rw [← timeOf_succ built (by omega), show ts.length - max - 1 + max + 1 = ts.length by omega]
      exact Nat.lt_add_of_pos_right (by decide)
    · rw [← timeOf_succ built (by omega)]
      exact timeOf_mono h (by omega) (Nat.le_refl _)

theorem window_iff {max : Nat} {l : List Nat} (h : (built :: l).Pairwise (· ≤ ·)) :
    (∀ x, l.countP (fun u => x ≤ u && u < x + minute) ≤ max) ↔
      ∀ j, 1 ≤ j → j + max ≤ l.length → timeOf built l j + minute ≤ timeOf built l (j + max) := by
  have hcount := fun x => lt_countP_iff (m := max) (List.pairwise_cons.mp h).2 (convex_minute x)
  simp only [Bool.and_eq_true, decide_eq_true_eq] at hcount
  constructor
  · intro hle j hj hjl
    by_contra hlt
    obtain ⟨j, rfl⟩ := Nat.exists_eq_succ_of_ne_zero (show j ≠ 0 by omega)
    refine absurd (hle (timeOf built l (j + 1)))
      (Nat.not_le.mpr ((hcount _).mpr ⟨j, by omega, ⟨?_, ?_⟩, ?_, ?_⟩))
    · rw [timeOf_succ built (by omega)]
    · rw [← timeOf_succ built (by omega)]
      exact Nat.lt_add_of_pos_right (by decide)
    · rw [← timeOf_succ built (by omega)]
      exact timeOf_mono h (by omega) (by omega)
    · rw [← timeOf_succ built (by omega), Nat.add_right_comm]
      exact Nat.not_le.mp hlt
  · intro hspaced x
    by_contra hlt
    obtain ⟨j, hj, ⟨hfirst, -⟩, -, hlast⟩ := (hcount x).mp (Nat.not_le.mp hlt)
    have := hspaced (j + 1) (by omega) (by omega)
    rw [timeOf_succ built (by omega), Nat.add_right_comm, timeOf_succ built hj] at this
    omega

/-- The attempts that ended in a spawn are those before the end of the sequence, or all. -/
theorem spawns_eq (h : s.monitorRunning = false → ts ≠ []) :
    ∃ rest, ts = spawns ts s ++ rest ∧
      rest.length = if s.monitorRunning then 0 else 1 := by
  unfold spawns
  cases hrun : s.monitorRunning with
  | true => exact ⟨[], (List.append_nil _).symm, rfl⟩
  | false => exact ⟨[ts.getLast (h hrun)], (List.dropLast_append_getLast (h hrun)).symm, rfl⟩

/-- The attempts of one minute make a streak, if there was no pause before the first. -/
theorem streak_of_lt (h : (built :: ts).Pairwise (· ≤ ·)) {max j : Nat} (hj : 0 < j)
    (hjl : j + max ≤ ts.length) (hshort : Short built ts j)
    (hlt : timeOf built ts (j + max) < timeOf built ts j + minute) :
    Streak max built ts (j + max) := by
  refine ⟨by omega, fun k hk hkj => ?_⟩
  rcases Nat.eq_or_lt_of_le (show j ≤ k by omega) with rfl | hjk
  · exact hshort
  · exact short_of_lt h hjk hkj hjl hlt

theorem History.limitKept_iff (h : History cfg built ts s) :
    LimitKept cfg.maxRestartsPerMin.toNat ts s ↔
      Spaced cfg.maxRestartsPerMin.toNat built ts := by
  have hstreak := h.streak ts.length (Nat.le_refl _)
  have hstopped : s.monitorRunning = false →
      Streak cfg.maxRestartsPerMin.toNat built ts ts.length := fun hrun => hstreak.mpr ⟨rfl, hrun⟩
  obtain ⟨rest, hts, hrest⟩ : ∃ rest, ts = spawns ts s ++ rest ∧ _ :=
    spawns_eq fun hrun hnil => by
      have := (hstopped hrun).1
      rw [hnil] at this
      cases this
  have hlen : ts.length = (spawns ts s).length + rest.length := by
    rw [← List.length_append, ← hts]
  have htime : ∀ i ≤ (spawns ts s).length, timeOf built ts i = timeOf built (spawns ts s) i := by
    intro i hi
    conv_lhs => rw [hts]
    exact timeOf_append_of_le hi
  have hsorted : (built :: spawns ts s).Pairwise (· ≤ ·) := by
    have := h.sorted
    rw [hts, ← List.cons_append] at this
    exact this.sublist (List.sublist_append_left ..)
  constructor
  · intro hkept
    refine ⟨fun i hi hin hshort => ?_, fun j hj hjn hpause => ?_⟩
    · obtain ⟨rfl, hrun⟩ := (h.streak i hin).mp ⟨hi, hshort⟩
      exact (giveUp_iff h.sorted hi).mp (hkept.giveUp hrun)
    · by_cases hjl : j + cfg.maxRestartsPerMin.toNat ≤ (spawns ts s).length
      · rw [htime _ (by omega), htime _ hjl]
        exact (window_iff hsorted).mp hkept.window j hj hjl
      · -- the last of these attempts is the one that gave up, but the streak before it has a pause
        have hrun : s.monitorRunning = false := by
          by_contra hrun
          rw [Bool.not_eq_false] at hrun
          rw [hrun, if_pos rfl] at hrest
          omega
        rw [hrun, if_neg nofun] at hrest
        exact absurd ((hstopped hrun).2 j (by omega) (by omega)) hpause
  · intro hspaced
    refine ⟨fun hrun => (giveUp_iff h.sorted (hstopped hrun).1).mpr
      (hspaced.dense _ (hstopped hrun).1 (Nat.le_refl _) (hstopped hrun).2), ?_⟩
    refine (window_iff hsorted).mpr fun j hj hjl => ?_
    rw [← htime _ (by omega), ← htime _ hjl]
    by_contra hlt
    have hlt := Nat.not_le.mp hlt
    -- the last attempt of a streak gives up, and is no restart
    have hpause : ¬ Short built ts j := by
      intro hshort
      obtain ⟨heq, hrun⟩ := (h.streak _ (by omega)).mp
        (streak_of_lt h.sorted hj (by omega) hshort hlt)
      rw [hrun, if_neg nofun] at hrest
      omega
    exact absurd (hspaced.sparse j hj (by omega) hpause) (Nat.not_le.mpr hlt)

/-- The counter keeps the limit exactly for attempts that are spaced well. -/
theorem limitKept_iff_spaced (hover : NoOverflow cfg ts)
    (hrun : (machine cfg built d pid).exec (machine cfg built d pid).init ts = some s) :
    LimitKept cfg.maxRestartsPerMin.toNat ts s ↔
      Spaced cfg.maxRestartsPerMin.toNat built ts :=
  (exec_history hover hrun).limitKept_iff

/-- With a limit of 2: three crashes within three seconds. -/
theorem quickCrashes_limitKept :
    ((machine { maxRestartsPerMin := 2 } 0 0 1).exec (machine { maxRestartsPerMin := 2 } 0 0 1).init
      [nsPerSec, 2 * nsPerSec, 3 * nsPerSec]).map (·.monitorRunning) = some false ∧
    ∀ s ∈ (machine { maxRestartsPerMin := 2 } 0 0 1).exec
        (machine { maxRestartsPerMin := 2 } 0 0 1).init [nsPerSec, 2 * nsPerSec, 3 * nsPerSec],
      LimitKept 2 [nsPerSec, 2 * nsPerSec, 3 * nsPerSec] s := by
  refine ⟨by decide +kernel, fun s hs => ?_⟩
  have hspaced : Spaced 2 0 [nsPerSec, 2 * nsPerSec, 3 * nsPerSec] := by
    constructor
    · intro i hi hle _
      obtain rfl : i = 3 := Nat.le_antisymm hle hi
      decide
    · intro j hj hle hpause
      obtain rfl : j = 1 := Nat.le_antisymm (Nat.le_of_add_le_add_right hle) hj
      exact absurd (by unfold Short; decide) hpause
  exact (limitKept_iff_spaced (.inl (by decide)) hs).mpr hspaced

/-- Crashes every 59 seconds. -/
def slowCrashes : List Nat := (List.range 11).map fun i => (i + 1) * 59 * nsPerSec

/-- Crashes every second, after the first hundred seconds went well. -/
def lateCrashes : List Nat := (List.range 11).map fun i => (i + 100) * nsPerSec

/-- With the default limit of 10: `CheckHealth` gives up although only two attempts fall into the
minute; and it makes eleven spawns within a minute. -/
theorem limit_missed :
    (∃ s, (machine {} 0 0 1).exec (machine {} 0 0 1).init slowCrashes = some s ∧
      s.monitorRunning = false ∧
      (slowCrashes.countP fun u => 649 * nsPerSec < u + minute && u ≤ 649 * nsPerSec) = 2 ∧
      ¬ LimitKept 10 slowCrashes s) ∧
    ∃ s, (machine {} 0 0 1).exec (machine {} 0 0 1).init lateCrashes = some s ∧
      s.monitorRunning = true ∧
      ((spawns lateCrashes s).countP fun u =>
        100 * nsPerSec ≤ u && u < 100 * nsPerSec + minute) = 11 ∧
      ¬ LimitKept 10 lateCrashes s := by
  refine ⟨⟨_, rfl, rfl, rfl, fun h => ?_⟩, _, rfl, rfl, rfl, fun h => ?_⟩
  · exact absurd (h.giveUp rfl (649 * nsPerSec) (by decide)) (by decide)
  · exact absurd (h.window (100 * nsPerSec)) (by decide)

end RestartLimit

end ProcessManager

end Sqc
