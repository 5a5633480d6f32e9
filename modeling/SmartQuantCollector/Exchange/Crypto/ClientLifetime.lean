import SmartQuantCollector.Exchange.Crypto.SymbolChannel

/-! # The end of a client

`~WsClient` asserts that the `io_context` is stopped. At the end of the program it is: `StopNetwork`
stops it before the channels go. But `Start` gives the slots of the channel to new clients, which
destroys the clients that were there, and the callback of the reconnect timer calls `Start` while
the `io_context` runs. So the assertion fails with the first reconnect (`destroyed_while_running`)
and holds in the runs without one (`destroyed_stopped_iff`). -/

namespace Sqc.SymbolChannel
open Concurrency Connections

/-- `ioc_.stopped()` held in every destructor. -/
def DestroyedStopped (s : Connections) : Prop := ∀ d ∈ s.destroyed, d.stopped = true

/-- No reconnect before the shutdown. -/
def KeepsClients (s : Connections) : Action → Prop
  | .reconnectExpired _ => s.shutdownRequested = true
  | _ => True

instance (s : Connections) : (a : Action) → Decidable (KeepsClients s a)
  | .reconnectExpired _ => inferInstanceAs (Decidable (s.shutdownRequested = true))
  | .connected _ | .connectFailed _ | .disconnected _ | .timerExpired _ | .timerCallback _
  | .requestShutdown | .stop | .stopContext | .destroy => inferInstanceAs (Decidable True)

variable {groups : List SubscriptionGroup} {s t : Connections} {a : Action}

theorem destroyed_start_of_shape (h : Shape groups s) (hrun : s.iocStopped = false)
    (hne : groups ≠ []) :
    (start groups s).destroyed = s.destroyed ++ destroys false s.wsClients := by
  rw [start_eq hne, hrun, ← h.length_eq hrun, List.drop_length, List.take_length]
  simp [destroys]

/-- `Start` destroys a client for each group. -/
theorem not_destroyedStopped_start (h : Shape groups s) (hrun : s.iocStopped = false)
    (hne : groups ≠ []) : ¬ DestroyedStopped (start groups s) := by
  have hlen : 0 < s.wsClients.length := h.length_eq hrun ▸ List.length_pos_iff.mpr hne
  obtain ⟨o, ho⟩ := List.exists_mem_of_length_pos hlen
  obtain ⟨c, rfl⟩ := Option.ne_none_iff_exists'.mp fun hnone => h.filled (hnone ▸ ho)
  intro hall
  have hmem : (⟨c, false⟩ : Destroyed) ∈ (start groups s).destroyed := by
    rw [destroyed_start_of_shape h hrun hne]
    exact List.mem_append_right _ (List.mem_map_of_mem (List.reduceOption_mem_iff.mpr ho))
  exact absurd (hall _ hmem) (by simp)

theorem destroyedStopped_step_iff (h : Shape groups s) (hs : step groups s a = some t) :
    DestroyedStopped t ↔ DestroyedStopped s ∧ KeepsClients s a := by
  have hsame {u : Connections} (hu : u.destroyed = s.destroyed) (htrue : KeepsClients s a) :
      DestroyedStopped u ↔ DestroyedStopped s ∧ KeepsClients s a := by
    rw [DestroyedStopped, hu, and_iff_left htrue]
    rfl
  cases effect_of_step hs with
  | @connected g c =>
    exact hsame (by rw [(sends_onConnected s g { c with status := .connected }).frame]; rfl) trivial
  | @reconnectExpired i _ hrun hdelay hup =>
    have hnot := not_destroyedStopped_start (s := { s.dropReconnect i with
      isReconnecting := false }) { h.dropReconnect i with } hrun (h.ne_nil_of_reconnect hdelay)
    exact iff_of_false hnot fun hs => absurd (hup.symm.trans hs.2) (by decide)
  | reconnectIgnored hshutdown => exact hsame rfl hshutdown
  | destroy hstopped =>
    refine ⟨fun hall => ⟨fun d hd => hall d (List.mem_append_left _ hd), trivial⟩, ?_⟩
    rintro ⟨hall, -⟩ d hd
    rcases List.mem_append.mp hd with hd | hd
    · exact hall d hd
    · obtain ⟨c, -, rfl⟩ := List.mem_map.mp hd
      exact hstopped
  | connectFailed | connectFailedAgain | disconnected | disconnectIgnored | timerExpired
  | timerCallback | timerIgnored | requestShutdown | stop | stopContext => exact hsame rfl trivial

/-- The clients were destroyed after the context had stopped, if and only if no reconnect has
replaced them before the shutdown. -/
theorem destroyed_stopped_iff {as : List Action}
    (h : (machine groups).exec (machine groups).init as = some t) :
    DestroyedStopped t ↔ (machine groups).Along KeepsClients (machine groups).init as := by
  have hinit : DestroyedStopped (machine groups).init := by
    rw [init_eq]
    exact List.forall_mem_nil _
  have hiff := (machine groups).exec_iff (I := Shape groups) (Q := DestroyedStopped)
    (C := KeepsClients) (fun _ _ _ hI hs => hI.step hs)
    (fun _ _ _ hI hs => destroyedStopped_step_iff hI hs) (Shape.init groups) h
  rwa [and_iff_right hinit] at hiff

/-- Both groups connect, one of them loses its connection during the shutdown, and both clients are
destroyed at the end. -/
theorem shutdown_destroys_stopped :
    ∃ t, (machine perpetualGroups).exec (machine perpetualGroups).init
        [.connected 0, .connected 1, .requestShutdown, .disconnected 0, .stop, .stopContext,
          .destroy] = some t ∧
      t.destroyed.map Destroyed.client = [⟨0, .closed⟩, ⟨1, .closing⟩] ∧ DestroyedStopped t := by
  have hrun : ((machine perpetualGroups).exec (machine perpetualGroups).init
      [.connected 0, .connected 1, .requestShutdown, .disconnected 0, .stop, .stopContext,
        .destroy]).map (fun t => t.destroyed.map Destroyed.client) =
      some [⟨0, .closed⟩, ⟨1, .closing⟩] := by
    decide +kernel
  obtain ⟨t, ht, hclients⟩ := Option.map_eq_some_iff.mp hrun
  exact ⟨t, ht, hclients, (destroyed_stopped_iff ht).mpr (by decide +kernel)⟩

/-- One group fails to connect. A second later its client and that of the other group, which is
still connecting, are destroyed on the thread that runs the `io_context`. -/
theorem destroyed_while_running :
    ((machine perpetualGroups).exec (machine perpetualGroups).init
        [.connectFailed 0, .reconnectExpired 0]).map
      (fun t => t.destroyed.map fun d => (d.client, d.stopped)) =
    some [(⟨0, .failed⟩, false), (⟨1, .connecting⟩, false)] := by
  decide +kernel

end Sqc.SymbolChannel
