import SmartQuantCollector.Exchange.Crypto.SymbolChannel
import Mathlib.Algebra.Group.Nat.Defs

/-! # Backing off

Reconnects are single-flight: as long as no shutdown is requested, `is_reconnecting_` says whether a
reconnect timer is pending, and there is never a second one (`Flight`).

The delay is to double with each round in which a group fails to connect. It is computed from
`reconnect_attempts_`, which the groups share and which counts the reconnects that were scheduled
since the last time that any group connected. So a group that fails in every round is retried every
second as long as another group connects in between (`delay_stays_at_one`), and the first round
that fails after a lost connection is followed by two seconds. `backsOff_iff_countsRounds` has the
runs in which the delays are right. -/

namespace Sqc.SymbolChannel
open Concurrency Connections

/-- The delay in seconds after the `k`-th round in a row in which a group has failed to connect. -/
def backoffSec (k : Nat) : Nat := min (2 ^ min (k - 1) 6) 60

/-- When a group has failed to connect in this round, the pending reconnect has the delay that is
due after so many rounds. -/
def BacksOff (s : Connections) : Prop :=
  s.roundFailed = true → s.reconnects.map UInt32.toNat = [backoffSec (s.failedRounds + 1)]

/-- The first failure in a round finds the right count. After a round without a failure, the
reconnect was scheduled already when a connection of this round was lost, or a group has connected
since the last reconnect was scheduled. After a round with a failure, no group has connected
since. -/
def CountsRounds (s : Connections) : Action → Prop
  | .connectFailed _ => s.roundFailed = true ∨
    if s.failedRounds = 0 then s.isReconnecting = true ∨ s.reconnectAttempts = 0
    else s.isReconnecting = false ∧ s.reconnectAttempts ≠ 0
  | _ => True

instance (s : Connections) : (a : Action) → Decidable (CountsRounds s a)
  | .connectFailed _ => inferInstanceAs (Decidable (_ ∨ if s.failedRounds = 0 then
      s.isReconnecting = true ∨ s.reconnectAttempts = 0
      else s.isReconnecting = false ∧ s.reconnectAttempts ≠ 0))
  | .connected _ | .disconnected _ | .timerExpired _ | .timerCallback _ | .reconnectExpired _
  | .requestShutdown | .stop | .stopContext | .destroy => inferInstanceAs (Decidable True)

variable {groups : List SubscriptionGroup} {s t : Connections} {a : Action}
variable {g : Nat} {c : WsClient} {w : Wait}

/-! ## Delays -/

/-- The delay that `ScheduleReconnect` computes. -/
def reconnectDelay (attempts : UInt32) : UInt32 :=
  min ((1 : UInt32) <<< min attempts 6) kMaxReconnectDelaySec

theorem toNat_reconnectDelay (attempts : UInt32) :
    (reconnectDelay attempts).toNat = backoffSec (attempts.toNat + 1) := by
  have hle : min attempts.toNat 6 ≤ 6 := Nat.min_le_right ..
  have hpow : 2 ^ min attempts.toNat 6 ≤ 2 ^ 6 := Nat.pow_le_pow_right (by decide) hle
  have hshift : ((1 : UInt32) <<< min attempts 6).toNat = 2 ^ min attempts.toNat 6 := by
    rw [UInt32.toNat_shiftLeft, UInt32.toNat_min]
    show 1 <<< (min attempts.toNat 6 % 32) % 2 ^ 32 = _
    rw [Nat.mod_eq_of_lt (by omega : min attempts.toNat 6 < 32), Nat.one_shiftLeft]
    exact Nat.mod_eq_of_lt (by omega)
  rw [reconnectDelay, UInt32.toNat_min, hshift, backoffSec, Nat.add_sub_cancel]
  rfl

theorem backoffSec_eq_one_iff {n : Nat} : backoffSec (n + 1) = 1 ↔ n = 0 := by
  rw [backoffSec, Nat.add_sub_cancel]
  constructor
  · intro h
    by_contra hn
    have hpow : 2 ^ 1 ≤ 2 ^ min n 6 := Nat.pow_le_pow_right (by decide) (by omega)
    omega
  · rintro rfl
    rfl

/-! ## Single flight -/

/-- `is_reconnecting_` is the number of pending reconnects. -/
structure Flight (s : Connections) : Prop where
  running : s.shutdownRequested = false
  length_eq : s.reconnects.length = s.isReconnecting.toNat

theorem Flight.single (h : Flight s) :
    s.reconnects.length ≤ 1 ∧ (s.isReconnecting = true ↔ s.reconnects ≠ []) := by
  rw [← List.length_pos_iff, h.length_eq]
  cases s.isReconnecting <;> simp

theorem Flight.reconnects_eq_nil (h : Flight s) (hrec : s.isReconnecting = false) :
    s.reconnects = [] := by
  rw [← List.length_eq_zero_iff, h.length_eq, hrec]
  rfl

theorem Flight.scheduleReconnect (h : Flight s) (hrec : s.isReconnecting = false) :
    Flight s.scheduleReconnect := by
  refine { h with length_eq := ?_ }
  show (s.reconnects ++ [_]).length = 1
  rw [h.reconnects_eq_nil hrec]
  rfl

theorem Flight.restart (h : Flight s) (hne : groups ≠ []) {i : Nat} {delay : UInt32}
    (hdelay : s.reconnects[i]? = some delay) : Flight ((s.dropReconnect i).restart groups) := by
  have hnone : (s.dropReconnect i).reconnects = [] := by
    have hlt := (List.getElem?_eq_some_iff.mp hdelay).1
    have hle := h.single.1
    refine List.length_eq_zero_iff.mp ?_
    rw [dropReconnect, List.length_eraseIdx_of_lt hlt]
    omega
  rw [Connections.restart, start_eq hne]
  exact ⟨h.running, congrArg List.length hnone⟩

/-- The channel is not shut down, so the steps behind a shutdown do not occur. -/
theorem Flight.not_shutdown (h : Flight s) : ¬ s.shutdownRequested = true := by
  rw [h.running]
  exact Bool.false_ne_true

theorem Flight.step (hshape : Shape groups s) (h : Flight s) (ha : a ≠ .requestShutdown)
    (hs : step groups s a = some t) : Flight t := by
  cases effect_of_step hs with
  | @connected g c =>
    rw [(sends_onConnected s g { c with status := .connected }).frame]
    exact { h with }
  | @connectFailed g c _ _ _ hrec =>
    exact Flight.scheduleReconnect (s := (s.setClient g { c with status := .failed }).failRound)
      { h with } hrec
  | @disconnected g c _ _ _ hrec =>
    exact Flight.scheduleReconnect (s := (s.setClient g { c with status := .closed }).stop)
      { h with } hrec
  | reconnectExpired _ hdelay => exact h.restart (hshape.ne_nil_of_reconnect hdelay) hdelay
  | requestShutdown => exact absurd rfl ha
  | timerIgnored hshutdown => exact absurd hshutdown h.not_shutdown
  | reconnectIgnored hshutdown => exact absurd hshutdown h.not_shutdown
  | stop hshutdown => exact absurd hshutdown h.not_shutdown
  | stopContext hshutdown => exact absurd hshutdown h.not_shutdown
  | destroy hstopped => exact absurd (hshape.shutdown hstopped) h.not_shutdown
  | connectFailedAgain | disconnectIgnored | timerExpired | timerCallback => exact { h with }

/-! ## Counting rounds -/

/-- What holds as long as the delays are right. -/
structure Streak (s : Connections) : Prop where
  bound : s.failedRounds + s.roundFailed.toNat ≤ 2 ^ 32
  /-- A group has connected in this round. -/
  reading : s.isReconnecting = false → ∀ g c, s.client g = some c →
    c.status = .connected ∨ c.status = .closing → s.reconnectAttempts = 0
  backsOff : BacksOff s
  failed : s.roundFailed = true → s.isReconnecting = true ∧
    (s.reconnectAttempts = 0 ∨ s.reconnectAttempts = UInt32.ofNat (s.failedRounds + 1))
  /-- A connection was lost in this round, and no group has failed. -/
  lost : s.roundFailed = false → s.isReconnecting = true →
    s.reconnects = [1] ∧ (s.reconnectAttempts = 0 ∨ s.reconnectAttempts = 1)
  idle : s.roundFailed = false → s.isReconnecting = false → s.failedRounds ≠ 0 →
    s.reconnectAttempts = 0 ∨ s.reconnectAttempts = UInt32.ofNat s.failedRounds

namespace Streak

theorem roundFailed_eq_false (h : Streak s) (hrec : s.isReconnecting = false) :
    s.roundFailed = false := by
  by_contra hfailed
  have hpending := (h.failed (Bool.not_eq_false _ ▸ hfailed)).1
  exact absurd (hrec.symm.trans hpending) (by decide)

theorem onConnected (h : Streak s) (g : Nat) (c : WsClient) : Streak (s.onConnected g c) := by
  rw [(sends_onConnected s g c).frame]
  exact
    { bound := h.bound
      reading := fun _ _ _ _ _ => rfl
      backsOff := h.backsOff
      failed := fun hfailed => ⟨(h.failed hfailed).1, .inl rfl⟩
      lost := fun hfailed hrec => ⟨(h.lost hfailed hrec).1, .inl rfl⟩
      idle := fun _ _ _ => .inl rfl }

/-- After a lost connection. -/
theorem disconnected (h : Streak s) (hflight : Flight s) (hc : s.client g = some c)
    (hstatus : c.status = .connected ∨ c.status = .closing) (hrec : s.isReconnecting = false)
    (c' : WsClient) : Streak (s.setClient g c').stop.scheduleReconnect := by
  have hzero : s.reconnectAttempts = 0 := h.reading hrec g c hc hstatus
  have hround := h.roundFailed_eq_false hrec
  refine
    { bound := h.bound
      reading := fun h => absurd h (by simp [scheduleReconnect])
      backsOff := fun h => absurd (hround.symm.trans h) (by decide)
      failed := fun h => absurd (hround.symm.trans h) (by decide)
      lost := fun _ _ => ⟨?_, .inr ?_⟩
      idle := fun _ h => absurd h (by simp [scheduleReconnect]) }
  · show s.reconnects ++ [reconnectDelay s.reconnectAttempts] = [1]
    rw [hflight.reconnects_eq_nil hrec, hzero]
    decide
  · show s.reconnectAttempts + 1 = 1
    rw [hzero]
    decide

theorem restart (h : Streak s) (hne : groups ≠ []) (i : Nat) :
    Streak ((s.dropReconnect i).restart groups) := by
  rw [Connections.restart, start_eq hne]
  refine
    { bound := ?_
      reading := fun _ g c hc hstatus => ?_
      backsOff := fun h => absurd h (by simp)
      failed := fun h => absurd h (by simp)
      lost := fun _ h => absurd h (by simp)
      idle := fun _ _ hne => ?_ }
  · have := h.bound
    cases hfailed : s.roundFailed with
    | false => simp [dropReconnect, hfailed]
    | true => simpa [dropReconnect, hfailed] using this
  · have := status_of_mem_fresh (List.mem_of_getElem? (client_eq_some.mp hc))
    rw [this] at hstatus
    simp at hstatus
  · cases hfailed : s.roundFailed with
    | false => simp [dropReconnect, hfailed] at hne
    | true => simpa [dropReconnect, hfailed] using (h.failed hfailed).2

end Streak

/-! ## The first failure of a round -/

namespace Streak

/-- In a streak the attempts are the failed rounds, unless a group has connected. -/
theorem attempts_toNat (h : Streak s) (hrec : s.isReconnecting = false)
    (hne : s.failedRounds ≠ 0) (hattempts : s.reconnectAttempts ≠ 0) :
    s.reconnectAttempts.toNat = s.failedRounds := by
  have hround := h.roundFailed_eq_false hrec
  have hbound : s.failedRounds ≤ 2 ^ 32 := by simpa [hround] using h.bound
  rcases h.idle hround hrec hne with hzero | heq
  · exact absurd hzero hattempts
  · -- here the counter would have wrapped
    have hlt : s.failedRounds ≠ 2 ^ 32 := by
      intro hmax
      rw [hmax] at heq
      exact hattempts heq
    rw [heq, UInt32.toNat_ofNat']
    exact Nat.mod_eq_of_lt (by omega)

/-- With no reconnect pending, the delay comes from the count of attempts. -/
theorem reconnectDelay_iff (h : Streak s) (hrec : s.isReconnecting = false) :
    (reconnectDelay s.reconnectAttempts).toNat = backoffSec (s.failedRounds + 1) ↔
      if s.failedRounds = 0 then s.reconnectAttempts = 0 else s.reconnectAttempts ≠ 0 := by
  rw [toNat_reconnectDelay]
  split
  next hzero =>
    rw [hzero, show backoffSec (0 + 1) = 1 from rfl, backoffSec_eq_one_iff, ← UInt32.toNat_inj]
    rfl
  next hne =>
    constructor
    · intro heq hzero
      rw [hzero] at heq
      exact hne (backoffSec_eq_one_iff.mp heq.symm)
    · intro hattempts
      rw [h.attempts_toNat hrec hne hattempts]

theorem connectFailed_iff (h : Streak s) (hflight : Flight s) (hrec : s.isReconnecting = false)
    (g : Nat) (c : WsClient) :
    BacksOff (s.setClient g c).failRound.scheduleReconnect ↔
      CountsRounds s (.connectFailed g) := by
  have hiff : BacksOff (s.setClient g c).failRound.scheduleReconnect ↔
      (reconnectDelay s.reconnectAttempts).toNat = backoffSec (s.failedRounds + 1) := by
    show (true = true → (s.reconnects ++ [reconnectDelay s.reconnectAttempts]).map UInt32.toNat =
      [backoffSec (s.failedRounds + 1)]) ↔ _
    rw [hflight.reconnects_eq_nil hrec]
    simp
  rw [hiff, h.reconnectDelay_iff hrec]
  simp [CountsRounds, h.roundFailed_eq_false hrec, hrec]

theorem connectFailed (h : Streak s) (hflight : Flight s) (hrec : s.isReconnecting = false)
    {g : Nat} (hcounts : CountsRounds s (.connectFailed g)) (c : WsClient) :
    Streak (s.setClient g c).failRound.scheduleReconnect := by
  have hround := h.roundFailed_eq_false hrec
  have hif : if s.failedRounds = 0 then s.reconnectAttempts = 0 else s.reconnectAttempts ≠ 0 := by
    simpa [CountsRounds, hround, hrec] using hcounts
  have htoNat : s.reconnectAttempts.toNat = s.failedRounds := by
    split at hif
    next hzero => rw [hif, hzero]; rfl
    next hne => exact h.attempts_toNat hrec hne hif
  have hattempts : s.reconnectAttempts = UInt32.ofNat s.failedRounds := by
    rw [← htoNat, UInt32.ofNat_toNat]
  refine
    { bound := ?_
      reading := fun h => absurd h (by simp [scheduleReconnect])
      backsOff := (h.connectFailed_iff hflight hrec g c).mpr hcounts
      failed := fun _ => ⟨rfl, .inr ?_⟩
      lost := fun h => absurd h (by simp [scheduleReconnect, failRound])
      idle := fun _ h => absurd h (by simp [scheduleReconnect]) }
  · show s.failedRounds + 1 ≤ 2 ^ 32
    rw [← htoNat]
    exact s.reconnectAttempts.toNat_lt
  · show s.reconnectAttempts + 1 = UInt32.ofNat (s.failedRounds + 1)
    rw [hattempts, UInt32.ofNat_add]
    rfl

theorem connectFailedAgain_iff (h : Streak s) (hrec : s.isReconnecting = true) (g : Nat)
    (c : WsClient) :
    BacksOff (s.setClient g c).failRound ↔ CountsRounds s (.connectFailed g) := by
  cases hround : s.roundFailed with
  | true => exact iff_of_true (fun _ => h.backsOff hround) (.inl hround)
  | false =>
    have hone := (h.lost hround hrec).1
    have hiff : BacksOff (s.setClient g c).failRound ↔ 1 = backoffSec (s.failedRounds + 1) := by
      show (true = true → s.reconnects.map UInt32.toNat = [backoffSec (s.failedRounds + 1)]) ↔ _
      rw [hone]
      simp
    rw [hiff, eq_comm, backoffSec_eq_one_iff]
    by_cases hzero : s.failedRounds = 0
    · simp [CountsRounds, hrec, hzero]
    · simp [CountsRounds, hround, hrec, hzero]

theorem connectFailedAgain (h : Streak s) (hrec : s.isReconnecting = true) {g : Nat}
    (hcounts : CountsRounds s (.connectFailed g)) (c : WsClient) :
    Streak (s.setClient g c).failRound := by
  have hback := (h.connectFailedAgain_iff hrec g c).mpr hcounts
  have hpending : (s.setClient g c).failRound.isReconnecting ≠ false := by
    show s.isReconnecting ≠ false
    simp [hrec]
  have hattempts : s.failedRounds + 1 ≤ 2 ^ 32 ∧
      (s.reconnectAttempts = 0 ∨ s.reconnectAttempts = UInt32.ofNat (s.failedRounds + 1)) := by
    cases hround : s.roundFailed with
    | true => exact ⟨by simpa [hround] using h.bound, (h.failed hround).2⟩
    | false =>
      -- the reconnect was scheduled when a connection of this round was lost
      have hzero : s.failedRounds = 0 := by
        by_contra hne
        simp [CountsRounds, hround, hrec, hne] at hcounts
      rw [hzero]
      exact ⟨by decide, (h.lost hround hrec).2⟩
  exact
    { bound := hattempts.1
      reading := fun h => absurd h hpending
      backsOff := hback
      failed := fun _ => ⟨hrec, hattempts.2⟩
      lost := fun h => absurd h (by simp [failRound])
      idle := fun _ h => absurd h hpending }

/-! ## Runs -/

theorem step (hshape : Shape groups s) (hflight : Flight s) (h : Streak s)
    (ha : a ≠ .requestShutdown) (hcounts : CountsRounds s a) (hs : step groups s a = some t) :
    Streak t := by
  cases effect_of_step hs with
  | connected => exact h.onConnected _ _
  | connectFailed _ _ _ hrec => exact h.connectFailed hflight hrec hcounts _
  | connectFailedAgain _ _ _ hrec => exact h.connectFailedAgain hrec hcounts _
  | disconnected _ hc hstatus hrec => exact h.disconnected hflight hc hstatus hrec _
  | disconnectIgnored _ hignore =>
    have hrec : s.isReconnecting ≠ false := by
      rcases hignore with hrec | hshutdown
      · simp [hrec]
      · exact absurd hshutdown hflight.not_shutdown
    exact { h with reading := fun h => absurd h hrec }
  | timerExpired => exact { h with }
  | timerCallback => exact { h with }
  | reconnectExpired _ hdelay => exact h.restart (hshape.ne_nil_of_reconnect hdelay) _
  | requestShutdown => exact absurd rfl ha
  | timerIgnored hshutdown => exact absurd hshutdown hflight.not_shutdown
  | reconnectIgnored hshutdown => exact absurd hshutdown hflight.not_shutdown
  | stop hshutdown => exact absurd hshutdown hflight.not_shutdown
  | stopContext hshutdown => exact absurd hshutdown hflight.not_shutdown
  | destroy hstopped => exact absurd (hshape.shutdown hstopped) hflight.not_shutdown

theorem backsOff_step_iff (hshape : Shape groups s) (hflight : Flight s) (h : Streak s)
    (ha : a ≠ .requestShutdown) (hs : SymbolChannel.step groups s a = some t) :
    BacksOff t ↔ CountsRounds s a := by
  cases a with
  | connectFailed g =>
    cases effect_of_step hs with
    | connectFailed _ _ _ hrec => exact h.connectFailed_iff hflight hrec g _
    | connectFailedAgain _ _ _ hrec => exact h.connectFailedAgain_iff hrec g _
  | _ => exact iff_of_true (h.step hshape hflight ha trivial hs).backsOff trivial

theorem init (groups : List SubscriptionGroup) : Streak (machine groups).init := by
  rw [init_eq]
  exact
    { bound := Nat.zero_le _
      reading := fun _ _ _ _ _ => rfl
      backsOff := fun h => absurd h (by simp)
      failed := fun h => absurd h (by simp)
      lost := fun _ h => absurd h (by simp)
      idle := fun _ _ h => absurd rfl h }

end Streak

theorem Flight.init (groups : List SubscriptionGroup) : Flight (machine groups).init := by
  rw [init_eq]
  exact ⟨rfl, rfl⟩

/-- Without a shutdown at most one reconnect is pending, and one is just in case `is_reconnecting_`
is set. In every state it has the delay that is due, if and only if the first failure of each round
finds the right count. -/
theorem backsOff_iff_countsRounds {as : List Action} (hno : .requestShutdown ∉ as)
    (h : (machine groups).exec (machine groups).init as = some t) :
    (t.reconnects.length ≤ 1 ∧ (t.isReconnecting = true ↔ t.reconnects ≠ [])) ∧
      ((∀ bs, bs <+: as → ∀ u, (machine groups).exec (machine groups).init bs = some u →
        BacksOff u) ↔ (machine groups).Along CountsRounds (machine groups).init as) := by
  have hD : (machine groups).Along (fun _ a => a ≠ .requestShutdown) (machine groups).init as :=
    (machine groups).along_of_forall fun a ha heq => hno (heq ▸ ha)
  let Single (s : Connections) : Prop := Shape groups s ∧ Flight s
  have hsingle (s : Connections) (a : Action) (t : Connections) (hI : Single s)
      (ha : a ≠ .requestShutdown) (hs : (machine groups).step s a = some t) : Single t :=
    ⟨hI.1.step hs, hI.2.step hI.1 ha hs⟩
  have hinit : Single (machine groups).init := ⟨Shape.init groups, Flight.init groups⟩
  constructor
  · exact ((machine groups).exec_invariant hsingle hinit hD h).2.single
  · refine (machine groups).exec_always_iff (I := fun s => Single s ∧ Streak s) (Q := BacksOff)
      (C := CountsRounds) (fun _ hI => hI.2.backsOff)
      (fun s a t hI ha hs => hI.2.backsOff_step_iff hI.1.1 hI.1.2 ha hs)
      (fun s a t hI ha hC hs => ?_) ⟨hinit, Streak.init groups⟩ hD h
    exact ⟨hsingle s a t hI.1 ha hs, hI.2.step hI.1.1 hI.1.2 ha hC hs⟩

/-- Three rounds in which both groups fail, the last one still waiting for one of them. -/
theorem three_failed_rounds :
    ∃ t, (machine perpetualGroups).exec (machine perpetualGroups).init
        [.connectFailed 0, .connectFailed 1, .reconnectExpired 0, .connectFailed 1,
          .connectFailed 0, .reconnectExpired 0, .connectFailed 0] = some t ∧
      (t.failedRounds, t.reconnects) = (2, [4]) ∧
      t.reconnects.length ≤ 1 ∧ (t.isReconnecting = true ↔ t.reconnects ≠ []) ∧ BacksOff t := by
  have hrun : ((machine perpetualGroups).exec (machine perpetualGroups).init
      [.connectFailed 0, .connectFailed 1, .reconnectExpired 0, .connectFailed 1,
        .connectFailed 0, .reconnectExpired 0, .connectFailed 0]).map
      (fun t => (t.failedRounds, t.reconnects)) = some (2, [4]) := by
    decide +kernel
  obtain ⟨t, ht, hdelay⟩ := Option.map_eq_some_iff.mp hrun
  obtain ⟨⟨hle, hpending⟩, hiff⟩ := backsOff_iff_countsRounds (by decide) ht
  exact ⟨t, ht, hdelay, hle, hpending, hiff.mpr (by decide +kernel) _ (List.prefix_rfl) t ht⟩

/-- The first group connects in every round and the second one fails. The third reconnect is due
after four seconds and comes after one, like those before. -/
theorem delay_stays_at_one :
    ((machine perpetualGroups).exec (machine perpetualGroups).init
        [.connected 0, .connectFailed 1, .reconnectExpired 0, .connected 0, .connectFailed 1,
          .reconnectExpired 0, .connected 0, .connectFailed 1]).map
      (fun t => (t.failedRounds, t.roundFailed, t.reconnects, backoffSec 3)) =
    some (2, true, [1], 4) := by
  decide +kernel

end Sqc.SymbolChannel
