import SmartQuantCollector.Exchange.Crypto.SymbolChannel

/-! # Delayed subscriptions

The callback of a subscription timer knows the index of its group only and writes to the client that
has the slot of the group by then. A lost connection cancels the timers before the clients are
replaced. A group that fails to connect does not: the timers of another group stay pending while
`Start` replaces its client, and one that expires afterwards writes to a client that it was not
armed for (`sent_on_other_client`).

`timersRight_iff_undisturbed` has the steps that do this, and that the other steps keep every timer
on its client. -/

namespace Sqc.SymbolChannel
open Concurrency Connections

/-- The slot of the group has the client for which the timer was armed, and it is connected. -/
def Holds (s : Connections) (w : Wait) : Prop :=
  ∃ c, s.client w.group = some c ∧ c.id = w.client ∧ c.isOpen = true

/-- Every timer that may still fire. A callback that runs after a shutdown request sends nothing. -/
def TimersRight (s : Connections) : Prop :=
  s.shutdownRequested = false → ∀ w ∈ s.waits, Holds s w

/-- The subscription goes to the client that has scheduled it, and this client is connected. -/
def Write.Right (w : Write) : Prop := w.client.id = w.armedOn ∧ w.client.isOpen = true

/-- The steps that leave the timers on their clients. A connection that is lost while a reconnect is
pending has no timers; one that is lost otherwise finds no callback in the queue, where it
cannot be cancelled any more; and no timer is left when the clients are replaced. -/
def Undisturbed (s : Connections) : Action → Prop
  | .disconnected g => s.shutdownRequested = true ∨
    ∀ w ∈ s.waits, if s.isReconnecting then w.group ≠ g else w.expired = false
  | .reconnectExpired _ => s.shutdownRequested = true ∨ s.waits.isEmpty = true
  | _ => True

instance (s : Connections) : (a : Action) → Decidable (Undisturbed s a)
  | .disconnected g => inferInstanceAs (Decidable (_ ∨ ∀ w ∈ s.waits,
      if s.isReconnecting then w.group ≠ g else w.expired = false))
  | .reconnectExpired _ => inferInstanceAs (Decidable (_ ∨ _))
  | .connected _ | .connectFailed _ | .timerExpired _ | .timerCallback _ | .requestShutdown
  | .stop | .stopContext | .destroy => inferInstanceAs (Decidable True)

variable {groups : List SubscriptionGroup} {s t : Connections} {a : Action}
variable {g : Nat} {c c' : WsClient} {w : Wait}

/-! ## Slots -/

theorem holds_congr (h : t.wsClients = s.wsClients) : Holds t w ↔ Holds s w := by
  rw [Holds, Holds, client, client, h]

/-- A client that is not open has no timers to lose. -/
theorem Holds.setClient (h : Holds s w) (hc : s.client g = some c) (hclosed : c.isOpen = false) :
    Holds (s.setClient g c') w := by
  obtain ⟨d, hd, hid, hopen⟩ := h
  have hne : w.group ≠ g := by
    rintro rfl
    cases hc.symm.trans hd
    exact absurd (hclosed.symm.trans hopen) (by decide)
  exact ⟨d, (client_setClient_of_ne hne).trans hd, hid, hopen⟩

theorem holds_setClient_of_ne (hne : w.group ≠ g) : Holds (s.setClient g c) w ↔ Holds s w := by
  rw [Holds, Holds, client_setClient_of_ne hne]

theorem not_holds_of_closed (hc : s.client w.group = some c) (hclosed : c.isOpen = false) :
    ¬ Holds s w := by
  rintro ⟨d, hd, -, hopen⟩
  cases hc.symm.trans hd
  exact absurd (hclosed.symm.trans hopen) (by decide)

theorem not_holds_closeClients (s : Connections) (w : Wait) : ¬ Holds s.closeClients w := by
  rintro ⟨d, hd, -, hopen⟩
  rw [client_closeClients] at hd
  obtain ⟨c, -, rfl⟩ := Option.map_eq_some_iff.mp hd
  simp at hopen

theorem not_holds_start (hne : groups ≠ []) (s : Connections) (w : Wait) :
    ¬ Holds (start groups s) w := by
  rintro ⟨d, hd, -, hopen⟩
  rw [start_eq hne] at hd
  have hstatus := status_of_mem_fresh (List.mem_of_getElem? (client_eq_some.mp hd))
  simp [WsClient.isOpen, hstatus] at hopen

theorem isOpen_of_connecting (h : c.status = .connecting) : c.isOpen = false := by
  simp [WsClient.isOpen, h]

/-! ## Steps -/

theorem TimersRight.onConnected (h : TimersRight s) (hc : s.client g = some c)
    (hstatus : c.status = .connecting) :
    TimersRight (s.onConnected g { c with status := .connected }) := by
  have hsends := sends_onConnected s g { c with status := .connected }
  have hclients : (s.onConnected g { c with status := .connected }).wsClients =
      (s.setClient g { c with status := .connected }).wsClients := by
    rw [hsends.frame]
  intro hrun w hw
  rw [hsends.frame] at hrun
  rw [holds_congr hclients]
  -- an older timer is not one of this group, whose client was not connected
  rcases hsends.waits w hw with hw | ⟨rfl, hid, -⟩
  · exact (h hrun w hw).setClient hc (isOpen_of_connecting hstatus)
  · exact ⟨_, client_setClient_self hc, hid.symm, rfl⟩

/-- After a lost connection that is not ignored only queued callbacks are left, all of them for
clients that are closed. -/
theorem timersRight_stop_iff (hpending : ∀ w ∈ s.waits, w.expired = false →
      w.timer ∈ s.pendingTimers) (hup : s.shutdownRequested = false) :
    TimersRight s.stop ↔ ∀ w ∈ s.waits, w.expired = false := by
  constructor
  · intro h w hw
    by_contra hexp
    refine not_holds_closeClients s.cancelTimers w (h hup w (List.mem_filter.mpr ⟨hw, ?_⟩))
    rw [Bool.not_eq_false] at hexp
    simp [hexp]
  · intro h _ w hw
    obtain ⟨hw, hkeep⟩ := List.mem_filter.mp hw
    have hexp := h w hw
    have hmem := hpending w hw hexp
    simp [hexp, hmem] at hkeep

theorem timersRight_closed_iff (h : TimersRight s) (hc : s.client g = some c)
    (hup : s.shutdownRequested = false) :
    TimersRight (s.setClient g { c with status := .closed }) ↔ ∀ w ∈ s.waits, w.group ≠ g := by
  constructor
  · rintro hall w hw rfl
    exact not_holds_of_closed (client_setClient_self hc) rfl (hall hup w hw)
  · exact fun hne _ w hw => (holds_setClient_of_ne (hne w hw)).mpr (h hup w hw)

theorem TimersRight.expire (h : TimersRight s) (timer : Nat) : TimersRight (s.expire timer) := by
  intro hup w hw
  obtain ⟨w', hw', rfl⟩ := List.mem_map.mp hw
  have hholds : Holds s w' := h hup w' hw'
  split
  all_goals exact hholds

theorem timersRight_restart_iff (hne : groups ≠ []) (hup : s.shutdownRequested = false) :
    TimersRight (s.restart groups) ↔ s.waits = [] := by
  have hwaits : (s.restart groups).waits = s.waits := waits_start ..
  have hup' : (s.restart groups).shutdownRequested = false := by
    rw [restart, start_eq hne]
    exact hup
  rw [List.eq_nil_iff_forall_not_mem, TimersRight, hwaits]
  exact ⟨fun h w hw => not_holds_start hne _ w (h hup' w hw), fun h _ w hw => absurd hw (h w)⟩

theorem timersRight_step_iff (hshape : Shape groups s) (h : TimersRight s)
    (hs : step groups s a = some t) : TimersRight t ↔ Undisturbed s a := by
  have hshutdown {u : Connections} (hu : u.shutdownRequested = true) : TimersRight u :=
    fun hup => absurd (hu.symm.trans hup) (by decide)
  have hfailed {g : Nat} {c : WsClient} (hc : s.client g = some c)
      (hstatus : c.status = .connecting) :
      TimersRight (s.setClient g { c with status := .failed }) :=
    fun hup w hw => (h hup w hw).setClient hc (isOpen_of_connecting hstatus)
  have hdrop (w : Wait) : TimersRight (s.dropWait w) :=
    fun hup w hw => h hup w (List.mem_filter.mp hw).1
  cases effect_of_step hs with
  | connected _ hc hstatus => exact iff_of_true (h.onConnected hc hstatus) trivial
  | connectFailed _ hc hstatus => exact iff_of_true (hfailed hc hstatus) trivial
  | connectFailedAgain _ hc hstatus => exact iff_of_true (hfailed hc hstatus) trivial
  | @disconnected g c _ hc _ hrec hup =>
    simp only [Undisturbed, hrec, hup, Bool.false_eq_true, if_false, false_or]
    exact timersRight_stop_iff (s := s.setClient g { c with status := .closed }) hshape.pending hup
  | @disconnectIgnored g c hc hignore =>
    cases hup : s.shutdownRequested with
    | true => exact iff_of_true (hshutdown hup) (.inl hup)
    | false =>
      have hrec : s.isReconnecting = true := hignore.resolve_right (by simp [hup])
      simp only [Undisturbed, hrec, hup, Bool.false_eq_true, if_true, false_or]
      exact timersRight_closed_iff h hc hup
  | timerExpired => exact iff_of_true (h.expire _) trivial
  | timerCallback => exact iff_of_true (hdrop _) trivial
  | timerIgnored => exact iff_of_true (hdrop _) trivial
  | reconnectExpired _ hdelay hup =>
    simp only [Undisturbed, hup, Bool.false_eq_true, false_or, List.isEmpty_iff]
    exact timersRight_restart_iff (hshape.ne_nil_of_reconnect hdelay) hup
  | reconnectIgnored h' => exact iff_of_true (hshutdown h') (.inl h')
  | requestShutdown => exact iff_of_true (hshutdown rfl) trivial
  | stop h' => exact iff_of_true (hshutdown h') trivial
  | stopContext h' => exact iff_of_true (hshutdown h') trivial
  | destroy h' => exact iff_of_true (hshutdown (hshape.shutdown h')) trivial

/-- A write comes from a client that has just connected, or from a timer that is right. -/
theorem writes_right_step (h : TimersRight s) (hwrites : ∀ w ∈ s.writes, w.Right)
    (hs : step groups s a = some t) : ∀ w ∈ t.writes, w.Right := by
  cases effect_of_step hs with
  | @connected g c =>
    intro w hw
    rcases (sends_onConnected s g { c with status := .connected }).writes w hw with hw | ⟨hid, hc⟩
    · exact hwrites w hw
    · exact ⟨by rw [hid, hc], by rw [hc]; rfl⟩
  | @timerCallback _ w c _ hw hc hup =>
    obtain ⟨d, hd, hid, hopen⟩ := h hup w hw
    cases hc.symm.trans hd
    intro w' hw'
    rcases List.mem_append.mp hw' with hw' | hw'
    · exact hwrites w' hw'
    · cases List.mem_singleton.mp hw'
      exact ⟨hid, hopen⟩
  | reconnectExpired =>
    rw [restart, writes_start]
    exact hwrites
  | connectFailed | connectFailedAgain | disconnected | disconnectIgnored | timerExpired
  | timerIgnored | reconnectIgnored | requestShutdown | stop | stopContext | destroy =>
    exact hwrites

/-! ## Runs -/

/-- In every state of a run each timer has the connected client that has armed it, if and only if
every step leaves the timers on their clients. Then every subscription went to the client that had
scheduled it. -/
theorem timersRight_iff_undisturbed {as : List Action}
    (h : (machine groups).exec (machine groups).init as = some t) :
    ((∀ bs, bs <+: as → ∀ u, (machine groups).exec (machine groups).init bs = some u →
        TimersRight u) ↔ (machine groups).Along Undisturbed (machine groups).init as) ∧
      ((machine groups).Along Undisturbed (machine groups).init as → ∀ w ∈ t.writes, w.Right) := by
  -- the timers are right in the states that undisturbed steps lead to, and only there
  let Inv (s : Connections) : Prop := Shape groups s ∧ TimersRight s ∧ ∀ w ∈ s.writes, w.Right
  have hinit : Inv (machine groups).init := by
    refine ⟨Shape.init groups, ?_⟩
    rw [init_eq]
    exact ⟨fun _ => List.forall_mem_nil _, List.forall_mem_nil _⟩
  have hQ (s : Connections) (a : Action) (t : Connections) (hI : Inv s) (_ : True)
      (hs : (machine groups).step s a = some t) : TimersRight t ↔ Undisturbed s a :=
    timersRight_step_iff hI.1 hI.2.1 hs
  have hstep (s : Connections) (a : Action) (t : Connections) (hI : Inv s) (hC : Undisturbed s a)
      (hs : (machine groups).step s a = some t) : Inv t :=
    ⟨hI.1.step hs, (hQ s a t hI trivial hs).mpr hC, writes_right_step hI.2.1 hI.2.2 hs⟩
  constructor
  · exact (machine groups).exec_always_iff (fun _ hI => hI.2.1) hQ
      (fun s a t hI _ hC hs => hstep s a t hI hC hs) hinit (machine groups).along_true h
  · exact fun hC => ((machine groups).exec_invariant hstep hinit hC h).2.2

/-- Both groups connect and subscribe; the first one loses its connection, and after the restart the
second one begins to subscribe again. -/
def reconnected : List Action :=
  [.connected 0, .connected 1, .timerExpired 1, .timerCallback 1, .timerExpired 0,
    .timerCallback 0, .disconnected 0, .reconnectExpired 0, .connected 1, .timerExpired 3,
    .timerCallback 3]

theorem reconnected_timers_right :
    ∃ t, (machine perpetualGroups).exec (machine perpetualGroups).init reconnected = some t ∧
      t.writes.map (fun w => (w.armedOn, w.client)) = [(0, ⟨0, .connected⟩), (1, ⟨1, .connected⟩),
        (1, ⟨1, .connected⟩), (3, ⟨3, .connected⟩)] ∧
      (∀ bs, bs <+: reconnected → ∀ u, (machine perpetualGroups).exec
        (machine perpetualGroups).init bs = some u → TimersRight u) ∧
      ∀ w ∈ t.writes, w.Right := by
  have hrun : ((machine perpetualGroups).exec (machine perpetualGroups).init reconnected).map
      (fun t => t.writes.map fun w => (w.armedOn, w.client)) =
      some [(0, ⟨0, .connected⟩), (1, ⟨1, .connected⟩), (1, ⟨1, .connected⟩),
        (3, ⟨3, .connected⟩)] := by
    decide +kernel
  have halong : (machine perpetualGroups).Along Undisturbed (machine perpetualGroups).init
      reconnected := by
    decide +kernel
  obtain ⟨t, ht, hwrites⟩ := Option.map_eq_some_iff.mp hrun
  obtain ⟨hiff, hright⟩ := timersRight_iff_undisturbed ht
  exact ⟨t, ht, hwrites, hiff.mpr halong, hright halong⟩

/-- The first group fails to connect, the second one connects a little later and sends its depth
subscription. Then the restart comes, before the timer of the other subscription expires: it is
sent to the new client, which has not connected. -/
theorem sent_on_other_client :
    ((machine perpetualGroups).exec (machine perpetualGroups).init
        [.connectFailed 0, .connected 1, .timerExpired 1, .timerCallback 1, .reconnectExpired 0,
          .timerExpired 0, .timerCallback 0]).map
      (fun t => t.writes.map fun w => (w.armedOn, w.client)) =
    some [(1, ⟨1, .connected⟩), (1, ⟨3, .connecting⟩)] := by
  decide +kernel

end Sqc.SymbolChannel
