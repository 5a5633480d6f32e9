import SmartQuantCollector.Exchange.Rithmic.ProcessManager

/-! # The age of a heartbeat, clock read by clock read

`CheckHealth` reads the monotonic clock and then loads `heartbeat_ns`; the gateway's main loop
(`src/rithmic_gateway/main.cpp`) reads the same clock and then stores its reading. Here each of
these four operations is a step of its own. When the gateway's read and store fall between those of
the parent, the loaded heartbeat is newer than the sampled clock and the unsigned subtraction wraps.
-/

namespace Sqc
open Concurrency

namespace ProcessManager.HeartbeatAge

/-- A decision to kill the gateway: the heartbeat that was loaded and the time. -/
structure Timeout where
  lastHb : UInt64
  time : UInt64
deriving DecidableEq

structure State where
  /-- The monotonic clock, in nanoseconds. -/
  now : UInt64
  heartbeatNs : UInt64
  /-- The reading that the gateway is about to store. -/
  beat : Option UInt64
  /-- The reading of a `CheckHealth` that is about to load `heartbeat_ns`. -/
  sample : Option UInt64
  timeouts : List Timeout
deriving DecidableEq

inductive Action where
  | childRead
  | childStore
  | checkRead
  | checkLoad
  | elapse (d : UInt64)
deriving DecidableEq

def step (cfg : Config) (s : State) : Action → Option State
  | .childRead => if s.beat.isNone then some { s with beat := some s.now } else none
  | .childStore => s.beat.map fun v => { s with heartbeatNs := v, beat := none }
  | .checkRead => if s.sample.isNone then some { s with sample := some s.now } else none
  | .checkLoad => s.sample.map fun nowNs =>
    if heartbeatExpired cfg nowNs s.heartbeatNs then
      -- the gateway is killed, a reading it has not stored is lost
      { s with sample := none, beat := none, timeouts := s.timeouts ++ [⟨s.heartbeatNs, s.now⟩] }
    else { s with sample := none }
  | .elapse d =>
    if s.now.toNat + d.toNat < 2 ^ 64 then some { s with now := s.now + d } else none

/-- A parent and a gateway that start at time `now`. -/
def machine (cfg : Config) (now : UInt64) : Machine State Action where
  init := ⟨now, 0, none, none, []⟩
  step := step cfg

/-- The gateway was killed because its heartbeat is older than the timeout. -/
def Timeout.Justified (cfg : Config) (k : Timeout) : Prop :=
  k.lastHb.toNat + cfg.heartbeatTimeoutSec.toNat * nsPerSec < k.time.toNat

/-- The heartbeat that is loaded is not newer than the sampled clock. -/
def LoadsPast (s : State) : Action → Prop
  | .checkLoad => ∀ nowNs ∈ s.sample, s.heartbeatNs ≤ nowNs
  | _ => True

instance (s : State) : ∀ a, Decidable (LoadsPast s a)
  | .checkLoad => Option.decidableForallMem s.sample
  | .childRead | .childStore | .checkRead | .elapse _ => isTrue trivial

/-- The test of `CheckHealth` on a heartbeat from the past: the difference does not wrap. -/
theorem heartbeatExpired_age {cfg : Config} {nowNs lastHb : UInt64} (hle : lastHb ≤ nowNs)
    (h : heartbeatExpired cfg nowNs lastHb = true) :
    lastHb.toNat + cfg.heartbeatTimeoutSec.toNat * nsPerSec < nowNs.toNat := by
  simp only [heartbeatExpired, Bool.and_eq_true, decide_eq_true_eq] at h
  have hsec : (UInt64.ofNat nsPerSec).toNat = nsPerSec := rfl
  have hdiv := UInt64.lt_iff_toNat_lt.mp h.2
  rw [UInt64.toNat_div, UInt64.toNat_sub_of_le _ _ hle, hsec, UInt32.toNat_toUInt64,
    Nat.lt_div_iff_mul_lt (by decide)] at hdiv
  rw [UInt64.le_iff_toNat_le] at hle
  have : nsPerSec = 1000000000 := rfl
  omega

/-- A sample lies in the past, and every kill so far was justified. -/
structure Inv (cfg : Config) (s : State) : Prop where
  sample_le : ∀ nowNs ∈ s.sample, nowNs ≤ s.now
  justified : ∀ k ∈ s.timeouts, k.Justified cfg

theorem step_inv {cfg : Config} {s t : State} {a : Action} (h : Inv cfg s) (hC : LoadsPast s a)
    (hs : step cfg s a = some t) : Inv cfg t := by
  cases a with
  | childRead =>
    simp only [step] at hs
    split at hs
    · cases hs
      exact ⟨h.sample_le, h.justified⟩
    · cases hs
  | childStore =>
    obtain ⟨v, -, rfl⟩ := Option.map_eq_some_iff.mp hs
    exact ⟨h.sample_le, h.justified⟩
  | checkRead =>
    simp only [step] at hs
    split at hs
    · cases hs
      refine ⟨fun nowNs hn => ?_, h.justified⟩
      cases hn
      exact UInt64.le_refl _
    · cases hs
  | checkLoad =>
    obtain ⟨nowNs, hsample, rfl⟩ := Option.map_eq_some_iff.mp hs
    split
    next hexp =>
      refine ⟨nofun, fun k hk => ?_⟩
      rcases List.mem_append.mp hk with hk | hk
      · exact h.justified k hk
      · cases List.mem_singleton.mp hk
        -- the decision is not made before the sample was taken
        have hage := heartbeatExpired_age (hC nowNs hsample) hexp
        exact Nat.lt_of_lt_of_le hage (UInt64.le_iff_toNat_le.mp (h.sample_le nowNs hsample))
    next => exact ⟨nofun, h.justified⟩
  | elapse d =>
    simp only [step] at hs
    split at hs
    next hlt =>
      cases hs
      refine ⟨fun nowNs hn => ?_, h.justified⟩
      have hle := UInt64.le_iff_toNat_le.mp (h.sample_le nowNs hn)
      rw [UInt64.le_iff_toNat_le, UInt64.toNat_add, Nat.mod_eq_of_lt hlt]
      omega
    next => cases hs

/-- In every run in which no `CheckHealth` loads a heartbeat newer than its sample of the clock, the
gateway is killed for heartbeats older than the timeout only. -/
theorem justified_of_loadsPast {cfg : Config} {now : UInt64} {as : List Action} {s : State}
    (hC : (machine cfg now).Along LoadsPast (machine cfg now).init as)
    (hs : (machine cfg now).exec (machine cfg now).init as = some s) :
    ∀ k ∈ s.timeouts, k.Justified cfg :=
  ((machine cfg now).exec_invariant (I := Inv cfg) (fun _ _ _ h hC ht => step_inv h hC ht)
    ⟨(fun _ h => by cases h), List.forall_mem_nil _⟩ hC hs).justified

/-- A heartbeat at 1 s, then none until the poll at 13 s. -/
def hangingGateway : List Action :=
  [.elapse 1000000000, .childRead, .childStore, .elapse 12000000000, .checkRead, .checkLoad]

theorem hangingGateway_justified :
    ((machine {} 0).exec (machine {} 0).init hangingGateway).map State.timeouts =
      some [⟨1000000000, 13000000000⟩] ∧
    ∀ s ∈ (machine {} 0).exec (machine {} 0).init hangingGateway,
      ∀ k ∈ s.timeouts, k.Justified {} :=
  ⟨by decide, fun _ hs => justified_of_loadsPast (by decide) hs⟩

/-- The parent samples the clock, the gateway stores a heartbeat a nanosecond later, the parent
loads it: the age wraps and the gateway is killed. -/
theorem fresh_heartbeat_kills :
    ∃ s, (machine {} 1000000000).exec (machine {} 1000000000).init
        [.checkRead, .elapse 1, .childRead, .childStore, .checkLoad] = some s ∧
      ¬∀ k ∈ s.timeouts, k.Justified {} := by
  refine ⟨⟨1000000001, 1000000001, none, none, [⟨1000000001, 1000000001⟩]⟩, by decide, fun h => ?_⟩
  have hk := h _ (List.mem_singleton_self _)
  revert hk
  unfold Timeout.Justified
  decide

end ProcessManager.HeartbeatAge

end Sqc
