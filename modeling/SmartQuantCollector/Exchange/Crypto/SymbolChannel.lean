import SmartQuantCollector.Lib.Machine
import Mathlib.Data.List.ReduceOption

/-! # The connections of a channel (`src/exchange/crypto/symbol_channel.cpp`,
`src/network/ws_client.cpp`)

A `SymbolChannel` has a `WsClient` for each subscription group of its adapter. When a client has
connected, the subscriptions of its group are sent, some of them later by a timer. When a client
fails to connect or loses its connection, a timer leads back to `Start`, which replaces all clients.

The callbacks run one after the other on the thread of `io_context::run`. An action of `machine` is
one callback, in any order that the network and the clocks can bring about, or a step of the
shutdown on the main thread. `cancel` does nothing to a timer that has expired: its callback is in
the queue by then and is called without an error. What a destroyed client had started is left
out, since its callbacks use the destroyed object. -/

namespace Sqc
open Concurrency

/-! ## Subscriptions (`src/exchange/exchange_adapter.h`) -/

structure SubscriptionMessage where
  payload : String
  delayMs : UInt32 := 0

structure SubscriptionGroup where
  messages : List SubscriptionMessage

def kDepthSubscribeDelayMs : UInt32 := 500

def kBookTickerSubscribeDelayMs : UInt32 := 700

/-- The groups of the Binance perpetual adapter
(`src/exchange/crypto/binance/binance_perpetual.cpp`). -/
def binancePerpetualBuildSubscribes (symbol : String) (depthLevel : UInt32) :
    List SubscriptionGroup :=
  let name := symbol.toLower
  let dl := toString depthLevel.toNat
  let subscribe (params : String) (id : String) : String :=
    "\x7b\"method\":\"SUBSCRIBE\",\"params\":[\"" ++ params ++ "\"],\"id\":" ++ id ++ "\x7d"
  [⟨[⟨subscribe (name ++ "@aggTrade") "1", 0⟩]⟩,
    ⟨[⟨subscribe (name ++ "@bookTicker") "3", kBookTickerSubscribeDelayMs⟩,
      ⟨subscribe (name ++ "@depth" ++ dl ++ "@100ms") "2", kDepthSubscribeDelayMs⟩]⟩]

def perpetualGroups : List SubscriptionGroup := binancePerpetualBuildSubscribes "BTCUSDT" 20

/-! ## `WsClient` -/

/-- `Connect` is under way or has failed; the client reads; `Close` was called and the read is still
pending; the read has failed. -/
inductive WsClient.Status where
  | connecting
  | failed
  | connected
  | closing
  | closed
deriving DecidableEq

structure WsClient where
  /-- In place of the address of the object. -/
  id : Nat
  status : WsClient.Status
deriving DecidableEq

/-- `is_open_` -/
def WsClient.isOpen (c : WsClient) : Bool := decide (c.status = .connected)

def WsClient.close (c : WsClient) : WsClient :=
  if c.isOpen then { c with status := .closing } else c

@[simp] theorem WsClient.isOpen_close (c : WsClient) : c.close.isOpen = false := by
  rw [close]
  split
  next => rfl
  next h => exact Bool.not_eq_true _ ▸ h

namespace SymbolChannel

/-! ## The state -/

/-- An `async_wait` of a subscription timer. -/
structure Wait where
  timer : Nat
  group : Nat
  /-- The index of the message in its group. -/
  message : Nat
  /-- The client for which the timer was armed. -/
  client : Nat
  /-- The timer has expired and the callback is queued. -/
  expired : Bool := false

/-- A call of `WsClient::Write` for a subscription that the client `armedOn` has scheduled. -/
structure Write where
  armedOn : Nat
  client : WsClient
  payload : String

/-- A call of `~WsClient`. -/
structure Destroyed where
  client : WsClient
  /-- `ioc_.stopped()` -/
  stopped : Bool

/-- The destructors of the clients that some slots own. -/
def destroys (stopped : Bool) (slots : List (Option WsClient)) : List Destroyed :=
  slots.reduceOption.map (⟨·, stopped⟩)

structure Connections where
  groups : List SubscriptionGroup := []
  wsClients : List (Option WsClient) := []
  reconnectAttempts : UInt32 := 0
  isReconnecting : Bool := false
  pendingTimers : List Nat := []
  waits : List Wait := []
  /-- The delays in seconds of the reconnect timers that are pending. -/
  reconnects : List UInt32 := []
  /-- `SignalHandler::IsShutdownRequested()` -/
  shutdownRequested : Bool := false
  /-- `ioc_.stopped()` -/
  iocStopped : Bool := false
  nextClient : Nat := 0
  nextTimer : Nat := 0
  -- the history of the run
  writes : List Write := []
  destroyed : List Destroyed := []
  /-- How many rounds just before this one had a group that did not connect. -/
  failedRounds : Nat := 0
  /-- A group has failed to connect since the last `Start`. -/
  roundFailed : Bool := false

namespace Connections

def client (s : Connections) (g : Nat) : Option WsClient := s.wsClients[g]?.join

def setClient (s : Connections) (g : Nat) (c : WsClient) : Connections :=
  { s with wsClients := s.wsClients.set g (some c) }

/-- `groups_[g].messages` -/
def messages (s : Connections) (g : Nat) : List SubscriptionMessage :=
  s.groups[g]?.elim [] SubscriptionGroup.messages

def write (s : Connections) (armedOn : Nat) (c : WsClient) (payload : String) : Connections :=
  { s with writes := s.writes ++ [⟨armedOn, c, payload⟩] }

/-! ## `Start` -/

/-- `ws_clients_.resize(n)` -/
def resize (s : Connections) (n : Nat) : Connections :=
  { s with
    wsClients := s.wsClients.take n ++ List.replicate (n - s.wsClients.length) none
    destroyed := s.destroyed ++ destroys s.iocStopped (s.wsClients.drop n) }

/-- The loop body of `Start`: a new client takes the slot of the group. -/
def connectGroup (s : Connections) (g : Nat) : Connections :=
  { s with
    wsClients := s.wsClients.set g (some ⟨s.nextClient, .connecting⟩)
    nextClient := s.nextClient + 1
    destroyed := s.destroyed ++ destroys s.iocStopped [s.client g] }

/-- `Start`, for an adapter whose `build_subscribes` returns `groups`. -/
def start (groups : List SubscriptionGroup) (s : Connections) : Connections :=
  let s := { s with
    groups := groups
    failedRounds := if s.roundFailed then s.failedRounds + 1 else 0
    roundFailed := false }
  if groups.isEmpty then s
  else (List.range groups.length).foldl connectGroup (s.resize groups.length)

/-! ## Timers -/

def kMaxReconnectDelaySec : UInt32 := 60

def scheduleReconnect (s : Connections) : Connections :=
  let delay := (1 : UInt32) <<< min s.reconnectAttempts 6
  let delay := min delay kMaxReconnectDelaySec
  { s with
    isReconnecting := true
    reconnectAttempts := s.reconnectAttempts + 1
    reconnects := s.reconnects ++ [delay] }

/-- `cancel` of the timers of `pending_timers_`, and `pending_timers_.clear()`. -/
def cancelTimers (s : Connections) : Connections :=
  { s with
    waits := s.waits.filter fun w => w.expired || !s.pendingTimers.contains w.timer
    pendingTimers := [] }

/-- `Close` of every client. -/
def closeClients (s : Connections) : Connections :=
  { s with wsClients := s.wsClients.map (Option.map WsClient.close) }

def stop (s : Connections) : Connections := s.cancelTimers.closeClients

/-! ## Callbacks -/

/-- The loop body of `SendGroupSubscriptions(g)`, `c` being the client of the group. -/
def sendSubscription (g : Nat) (c : WsClient) (s : Connections)
    (m : SubscriptionMessage × Nat) : Connections :=
  if m.1.delayMs = 0 then s.write c.id c m.1.payload
  else
    { s with
      pendingTimers := s.pendingTimers ++ [s.nextTimer]
      waits := s.waits ++ [⟨s.nextTimer, g, m.2, c.id, false⟩]
      nextTimer := s.nextTimer + 1 }

def sendGroupSubscriptions (s : Connections) (g : Nat) (c : WsClient) : Connections :=
  (s.messages g).zipIdx.foldl (sendSubscription g c) s

/-- `on_connect_(true)` of group `g`, `c` being the client that is open now. -/
def onConnected (s : Connections) (g : Nat) (c : WsClient) : Connections :=
  { s.setClient g c with reconnectAttempts := 0 }.sendGroupSubscriptions g c

def failRound (s : Connections) : Connections := { s with roundFailed := true }

/-- `on_connect_(false)` of group `g` -/
def onConnectFailed (s : Connections) (g : Nat) (c : WsClient) : Connections :=
  let s := (s.setClient g c).failRound
  -- the subscription timers of the other groups stay armed
  if s.isReconnecting then s else s.scheduleReconnect

def onDisconnect (s : Connections) : Connections :=
  -- also when the connection was made, and its timers armed, after the reconnect was scheduled
  if s.isReconnecting then s
  else if s.shutdownRequested then s
  else s.cancelTimers.closeClients.scheduleReconnect

/-- The read of the client of group `g` fails. -/
def onReadFailed (s : Connections) (g : Nat) (c : WsClient) : Connections :=
  (s.setClient g c).onDisconnect

def expire (s : Connections) (timer : Nat) : Connections :=
  { s with waits := s.waits.map fun w => if w.timer = timer then { w with expired := true } else w }

def dropWait (s : Connections) (w : Wait) : Connections :=
  { s with waits := s.waits.filter (·.timer ≠ w.timer) }

/-- The callback of a subscription timer that was not cancelled. -/
def onTimer (s : Connections) (w : Wait) : Option Connections :=
  if s.shutdownRequested then some (s.dropWait w)
  else (s.client w.group).bind fun c =>
    (s.messages w.group)[w.message]?.map fun m => (s.dropWait w).write w.client c m.payload

def dropReconnect (s : Connections) (i : Nat) : Connections :=
  { s with reconnects := s.reconnects.eraseIdx i }

def restart (groups : List SubscriptionGroup) (s : Connections) : Connections :=
  start groups { s with isReconnecting := false }

/-- The callback of the reconnect timer that is number `i` of those pending. -/
def onReconnect (groups : List SubscriptionGroup) (s : Connections) (i : Nat) : Connections :=
  if s.shutdownRequested then s.dropReconnect i else restart groups (s.dropReconnect i)

/-- The end of the channel. -/
def destroy (s : Connections) : Connections :=
  { s with wsClients := [], destroyed := s.destroyed ++ destroys s.iocStopped s.wsClients }

end Connections

/-! ## The machine -/

inductive Action where
  | connected (g : Nat)
  | connectFailed (g : Nat)
  | disconnected (g : Nat)
  /-- The subscription timer expires and its callback is queued. -/
  | timerExpired (timer : Nat)
  | timerCallback (timer : Nat)
  | reconnectExpired (i : Nat)
  /-- The signal handler runs. -/
  | requestShutdown
  /-- `SymbolChannel::Stop` in `StopNetwork` -/
  | stop
  /-- `io_ctx->stop()` in `StopNetwork` -/
  | stopContext
  /-- The last reference to the channel goes. -/
  | destroy
deriving DecidableEq

/-- A callback needs a running `io_context`. -/
def callback (s : Connections) (r : Option Connections) : Option Connections :=
  if s.iocStopped then none else r

/-- The client of group `g` passes from a status among `allowed` to `next`. -/
def passes (s : Connections) (g : Nat) (allowed : List WsClient.Status) (next : WsClient.Status) :
    Option WsClient :=
  ((s.client g).filter fun c => allowed.contains c.status).map ({ · with status := next })

def step (groups : List SubscriptionGroup) (s : Connections) : Action → Option Connections
  | .connected g => callback s ((passes s g [.connecting] .connected).map (s.onConnected g))
  | .connectFailed g => callback s ((passes s g [.connecting] .failed).map (s.onConnectFailed g))
  | .disconnected g =>
    callback s ((passes s g [.connected, .closing] .closed).map (s.onReadFailed g))
  | .timerExpired timer =>
    callback s (if s.waits.any (·.timer = timer) then some (s.expire timer) else none)
  | .timerCallback timer =>
    callback s ((s.waits.find? fun w => w.timer = timer && w.expired).bind s.onTimer)
  | .reconnectExpired i => callback s (s.reconnects[i]?.map fun _ => s.onReconnect groups i)
  | .requestShutdown => some { s with shutdownRequested := true }
  | .stop => if s.shutdownRequested then some s.stop else none
  | .stopContext => if s.shutdownRequested then some { s with iocStopped := true } else none
  | .destroy => if s.iocStopped then some s.destroy else none

/-- `RunNetwork` starts the channel before the `io_context`. -/
def machine (groups : List SubscriptionGroup) : Machine Connections Action where
  init := Connections.start groups {}
  step := step groups

/-- What a step does, by cases. -/
inductive Effect (groups : List SubscriptionGroup) (s : Connections) :
    Action → Connections → Prop where
  | connected {g : Nat} {c : WsClient} (hrun : s.iocStopped = false) (hc : s.client g = some c)
      (hstatus : c.status = .connecting) :
      Effect groups s (.connected g) (s.onConnected g { c with status := .connected })
  | connectFailed {g : Nat} {c : WsClient} (hrun : s.iocStopped = false)
      (hc : s.client g = some c) (hstatus : c.status = .connecting)
      (hrec : s.isReconnecting = false) :
      Effect groups s (.connectFailed g)
        (s.setClient g { c with status := .failed }).failRound.scheduleReconnect
  /-- A reconnect is pending. -/
  | connectFailedAgain {g : Nat} {c : WsClient} (hrun : s.iocStopped = false)
      (hc : s.client g = some c) (hstatus : c.status = .connecting)
      (hrec : s.isReconnecting = true) :
      Effect groups s (.connectFailed g) (s.setClient g { c with status := .failed }).failRound
  | disconnected {g : Nat} {c : WsClient} (hrun : s.iocStopped = false)
      (hc : s.client g = some c) (hstatus : c.status = .connected ∨ c.status = .closing)
      (hrec : s.isReconnecting = false) (hup : s.shutdownRequested = false) :
      Effect groups s (.disconnected g)
        (s.setClient g { c with status := .closed }).stop.scheduleReconnect
  | disconnectIgnored {g : Nat} {c : WsClient} (hc : s.client g = some c)
      (hignore : s.isReconnecting = true ∨ s.shutdownRequested = true) :
      Effect groups s (.disconnected g) (s.setClient g { c with status := .closed })
  | timerExpired {timer : Nat} : Effect groups s (.timerExpired timer) (s.expire timer)
  | timerCallback {timer : Nat} {w : Wait} {c : WsClient} {m : SubscriptionMessage}
      (hw : w ∈ s.waits) (hc : s.client w.group = some c) (hup : s.shutdownRequested = false) :
      Effect groups s (.timerCallback timer) ((s.dropWait w).write w.client c m.payload)
  | timerIgnored {timer : Nat} {w : Wait} (hshutdown : s.shutdownRequested = true) :
      Effect groups s (.timerCallback timer) (s.dropWait w)
  | reconnectExpired {i : Nat} {delay : UInt32} (hrun : s.iocStopped = false)
      (hdelay : s.reconnects[i]? = some delay) (hup : s.shutdownRequested = false) :
      Effect groups s (.reconnectExpired i) ((s.dropReconnect i).restart groups)
  | reconnectIgnored {i : Nat} (hshutdown : s.shutdownRequested = true) :
      Effect groups s (.reconnectExpired i) (s.dropReconnect i)
  | requestShutdown : Effect groups s .requestShutdown { s with shutdownRequested := true }
  | stop (hshutdown : s.shutdownRequested = true) : Effect groups s .stop s.stop
  | stopContext (hshutdown : s.shutdownRequested = true) :
      Effect groups s .stopContext { s with iocStopped := true }
  | destroy (hstopped : s.iocStopped = true) : Effect groups s .destroy s.destroy

variable {groups : List SubscriptionGroup} {s t : Connections} {a : Action}

theorem callback_eq_some {r : Option Connections} (h : callback s r = some t) :
    s.iocStopped = false ∧ r = some t := by
  rw [callback] at h
  split at h
  next => cases h
  next hrun => exact ⟨Bool.not_eq_true _ ▸ hrun, h⟩

theorem callback_passes {g : Nat} {allowed : List WsClient.Status} {next : WsClient.Status}
    {f : WsClient → Connections} (h : callback s ((passes s g allowed next).map f) = some t) :
    s.iocStopped = false ∧
      ∃ c, s.client g = some c ∧ c.status ∈ allowed ∧ f { c with status := next } = t := by
  obtain ⟨hrun, h⟩ := callback_eq_some h
  obtain ⟨c', hc', ht⟩ := Option.map_eq_some_iff.mp h
  obtain ⟨c, hc, rfl⟩ := Option.map_eq_some_iff.mp hc'
  obtain ⟨hc, hstatus⟩ := Option.filter_eq_some_iff.mp hc
  exact ⟨hrun, c, hc, by simpa using hstatus, ht⟩

theorem effect_of_step (h : step groups s a = some t) : Effect groups s a t := by
  cases a with
  | connected g =>
    obtain ⟨hrun, c, hc, hstatus, rfl⟩ := callback_passes h
    exact .connected hrun hc (by simpa using hstatus)
  | connectFailed g =>
    obtain ⟨hrun, c, hc, hstatus, rfl⟩ := callback_passes h
    have hstatus : c.status = .connecting := by simpa using hstatus
    rw [Connections.onConnectFailed]
    split
    next hrec => exact .connectFailedAgain hrun hc hstatus hrec
    next hrec => exact .connectFailed hrun hc hstatus (Bool.not_eq_true _ ▸ hrec)
  | disconnected g =>
    obtain ⟨hrun, c, hc, hstatus, rfl⟩ := callback_passes h
    have hstatus : c.status = .connected ∨ c.status = .closing := by simpa using hstatus
    rw [Connections.onReadFailed, Connections.onDisconnect]
    split
    next hrec => exact .disconnectIgnored hc (.inl hrec)
    next hrec =>
      split
      next hshutdown => exact .disconnectIgnored hc (.inr hshutdown)
      next hup =>
        exact .disconnected hrun hc hstatus (Bool.not_eq_true _ ▸ hrec) (Bool.not_eq_true _ ▸ hup)
  | timerExpired timer =>
    obtain ⟨-, h⟩ := callback_eq_some h
    split at h
    next => cases h; exact .timerExpired
    next => cases h
  | timerCallback timer =>
    obtain ⟨-, h⟩ := callback_eq_some h
    obtain ⟨w, hw, h⟩ := Option.bind_eq_some_iff.mp h
    rw [Connections.onTimer] at h
    split at h
    next hshutdown => cases h; exact .timerIgnored hshutdown
    next hup =>
      obtain ⟨c, hc, h⟩ := Option.bind_eq_some_iff.mp h
      obtain ⟨m, -, rfl⟩ := Option.map_eq_some_iff.mp h
      exact .timerCallback (List.mem_of_find?_eq_some hw) hc (Bool.not_eq_true _ ▸ hup)
  | reconnectExpired i =>
    obtain ⟨hrun, h⟩ := callback_eq_some h
    obtain ⟨delay, hdelay, rfl⟩ := Option.map_eq_some_iff.mp h
    rw [Connections.onReconnect]
    split
    next hshutdown => exact .reconnectIgnored hshutdown
    next hup => exact .reconnectExpired hrun hdelay (Bool.not_eq_true _ ▸ hup)
  | requestShutdown => cases h; exact .requestShutdown
  | stop =>
    simp only [step] at h
    split at h
    next hshutdown => cases h; exact .stop hshutdown
    next => cases h
  | stopContext =>
    simp only [step] at h
    split at h
    next hshutdown => cases h; exact .stopContext hshutdown
    next => cases h
  | destroy =>
    simp only [step] at h
    split at h
    next hstopped => cases h; exact .destroy hstopped
    next => cases h

theorem destroys_append (stopped : Bool) (slots slots' : List (Option WsClient)) :
    destroys stopped (slots ++ slots') = destroys stopped slots ++ destroys stopped slots' := by
  simp only [destroys, List.reduceOption_append, List.map_append]

/-! ## Clients -/

namespace Connections

variable {g g' : Nat} {c c' : WsClient}

theorem client_eq_some : s.client g = some c ↔ s.wsClients[g]? = some (some c) :=
  Option.join_eq_some_iff

theorem lt_of_client (h : s.client g = some c) : g < s.wsClients.length :=
  (List.getElem?_eq_some_iff.mp (client_eq_some.mp h)).1

theorem client_setClient_self (h : s.client g = some c') : (s.setClient g c).client g = some c :=
  client_eq_some.mpr (List.getElem?_set_self (lt_of_client h))

theorem client_setClient_of_ne (h : g' ≠ g) : (s.setClient g c).client g' = s.client g' :=
  congrArg Option.join (List.getElem?_set_ne h.symm)

theorem client_closeClients (s : Connections) (g : Nat) :
    s.closeClients.client g = (s.client g).map WsClient.close := by
  rw [client, closeClients, List.getElem?_map, client]
  cases s.wsClients[g]? <;> rfl

/-! ## `Start` -/

/-- The clients that `Start` makes. -/
def fresh (first n : Nat) : List (Option WsClient) :=
  (List.range n).map fun g => some ⟨first + g, .connecting⟩

@[simp] theorem length_fresh (first n : Nat) : (fresh first n).length = n := by
  simp [fresh]

theorem status_of_mem_fresh {first n : Nat} (h : some c ∈ fresh first n) :
    c.status = .connecting := by
  obtain ⟨g, -, hc⟩ := List.mem_map.mp h
  cases hc
  rfl

theorem fresh_succ (first n : Nat) :
    fresh first (n + 1) = fresh first n ++ [some ⟨first + n, .connecting⟩] := by
  rw [fresh, List.range_succ, List.map_append]
  rfl

theorem foldl_connectGroup {n : Nat} (hn : n ≤ s.wsClients.length) :
    (List.range n).foldl connectGroup s =
      { s with
        wsClients := fresh s.nextClient n ++ s.wsClients.drop n
        nextClient := s.nextClient + n
        destroyed := s.destroyed ++ destroys s.iocStopped (s.wsClients.take n) } := by
  -- after `n` groups the slots from `n` on are still the old ones
  induction n with
  | zero => simp [fresh, destroys, List.reduceOption]
  | succ n ih =>
    have hget : s.wsClients[n]? = some s.wsClients[n] := List.getElem?_eq_getElem hn
    have hclient : (fresh s.nextClient n ++ s.wsClients.drop n)[n]?.join = s.wsClients[n] := by
      rw [List.getElem?_append_right (by simp), length_fresh, List.getElem?_drop, Nat.sub_self,
        Nat.add_zero, hget]
      rfl
    have hset (o : Option WsClient) : (fresh s.nextClient n ++ s.wsClients.drop n).set n o =
        fresh s.nextClient n ++ [o] ++ s.wsClients.drop (n + 1) := by
      rw [List.set_append_right _ _ (by simp), length_fresh, Nat.sub_self,
        List.drop_eq_getElem_cons hn, List.set_cons_zero, List.append_assoc, List.singleton_append]
    have htake : s.wsClients.take (n + 1) = s.wsClients.take n ++ [s.wsClients[n]] := by
      rw [List.take_add_one, hget]
      rfl
    rw [List.range_succ, List.foldl_append, ih (Nat.le_of_succ_le hn), htake, fresh_succ,
      destroys_append, ← List.append_assoc, ← Nat.add_assoc]
    simp only [List.foldl_cons, List.foldl_nil, connectGroup, client, hclient, hset]

theorem start_eq (hne : groups ≠ []) (s : Connections) :
    start groups s =
      { s with
        groups := groups
        failedRounds := if s.roundFailed then s.failedRounds + 1 else 0
        roundFailed := false
        wsClients := fresh s.nextClient groups.length
        nextClient := s.nextClient + groups.length
        destroyed := s.destroyed ++ destroys s.iocStopped (s.wsClients.drop groups.length) ++
          destroys s.iocStopped (s.wsClients.take groups.length) } := by
  have hlen : (s.wsClients.take groups.length ++
      List.replicate (groups.length - s.wsClients.length) none).length = groups.length := by
    simp only [List.length_append, List.length_take, List.length_replicate]
    omega
  have hnone : destroys s.iocStopped (List.replicate (groups.length - s.wsClients.length) none) =
      [] := by
    simp [destroys]
  have hempty : groups.isEmpty = false := by simpa using hne
  simp only [start, hempty, Bool.false_eq_true, if_false]
  rw [foldl_connectGroup (Nat.le_of_eq hlen.symm)]
  simp only [resize]
  rw [List.drop_of_length_le (Nat.le_of_eq hlen), List.take_of_length_le (Nat.le_of_eq hlen),
    destroys_append, hnone, List.append_nil, List.append_nil]

theorem waits_start (groups : List SubscriptionGroup) (s : Connections) :
    (start groups s).waits = s.waits := by
  rcases eq_or_ne groups [] with rfl | hne
  · rfl
  · rw [start_eq hne]

theorem writes_start (groups : List SubscriptionGroup) (s : Connections) :
    (start groups s).writes = s.writes := by
  rcases eq_or_ne groups [] with rfl | hne
  · rfl
  · rw [start_eq hne]

theorem init_eq (groups : List SubscriptionGroup) :
    (machine groups).init =
      { groups := groups
        wsClients := fresh 0 groups.length
        nextClient := groups.length } := by
  show start groups {} = _
  rcases eq_or_ne groups [] with rfl | hne
  · rfl
  · rw [start_eq hne]
    simp [destroys]

/-! ## `SendGroupSubscriptions` -/

/-- What `SendGroupSubscriptions(g)` may change: the new waits and writes are for the client of the
group. -/
structure Sends (g : Nat) (c : WsClient) (s t : Connections) : Prop where
  frame : t = { s with
    writes := t.writes
    pendingTimers := t.pendingTimers
    waits := t.waits
    nextTimer := t.nextTimer }
  pending : s.pendingTimers ⊆ t.pendingTimers
  waits : ∀ w ∈ t.waits, w ∈ s.waits ∨ w.group = g ∧ w.client = c.id ∧
    w.timer ∈ t.pendingTimers ∧ w.message < (s.messages g).length
  writes : ∀ w ∈ t.writes, w ∈ s.writes ∨ w.armedOn = c.id ∧ w.client = c

theorem Sends.refl (g : Nat) (c : WsClient) (s : Connections) : Sends g c s s :=
  ⟨rfl, List.Subset.refl _, fun _ => .inl, fun _ => .inl⟩

theorem Sends.trans {u : Connections} (h : Sends g c s t) (h' : Sends g c t u) : Sends g c s u where
  frame := by
    rw [h'.frame, h.frame]
  pending := List.Subset.trans h.pending h'.pending
  waits w hw := by
    have hmessages : t.messages g = s.messages g := by
      rw [h.frame]
      rfl
    rcases h'.waits w hw with hw | hw
    · rcases h.waits w hw with hw | ⟨hg, hc, htimer, hm⟩
      · exact .inl hw
      · exact .inr ⟨hg, hc, h'.pending htimer, hm⟩
    · exact .inr (hmessages ▸ hw)
  writes w hw := by
    rcases h'.writes w hw with hw | hw
    · exact h.writes w hw
    · exact .inr hw

theorem sends_sendSubscription {m : SubscriptionMessage × Nat} (hm : m.2 < (s.messages g).length) :
    Sends g c s (sendSubscription g c s m) := by
  rw [sendSubscription]
  split
  next =>
    refine ⟨rfl, List.Subset.refl _, fun _ => .inl, fun w hw => ?_⟩
    rcases List.mem_append.mp hw with hw | hw
    · exact .inl hw
    · cases List.mem_singleton.mp hw
      exact .inr ⟨rfl, rfl⟩
  next =>
    refine ⟨rfl, List.subset_append_left _ _, fun w hw => ?_, fun _ => .inl⟩
    rcases List.mem_append.mp hw with hw | hw
    · exact .inl hw
    · cases List.mem_singleton.mp hw
      exact .inr ⟨rfl, rfl, List.mem_append_right _ (List.mem_singleton_self _), hm⟩

theorem sends_foldl {ms : List (SubscriptionMessage × Nat)}
    (hms : ∀ m ∈ ms, m.2 < (s.messages g).length) :
    Sends g c s (ms.foldl (sendSubscription g c) s) := by
  induction ms generalizing s with
  | nil => exact .refl g c s
  | cons m ms ih =>
    rw [List.forall_mem_cons] at hms
    have hm : Sends g c s (sendSubscription g c s m) := sends_sendSubscription hms.1
    have hmessages : (sendSubscription g c s m).messages g = s.messages g := by
      rw [hm.frame]
      rfl
    exact hm.trans (ih (hmessages ▸ hms.2))

theorem sends_onConnected (s : Connections) (g : Nat) (c : WsClient) :
    Sends g c { s.setClient g c with reconnectAttempts := 0 } (s.onConnected g c) := by
  refine sends_foldl fun m hm => ?_
  simpa using List.snd_lt_of_mem_zipIdx hm

end Connections

/-! ## What holds in every run -/

/-- The clients belong to the groups, and the timers to messages; a timer that has not expired can
be cancelled. -/
structure Shape (groups : List SubscriptionGroup) (s : Connections) : Prop where
  groups_eq : s.groups = groups
  length_eq : s.iocStopped = false → s.wsClients.length = groups.length
  filled : none ∉ s.wsClients
  pending : ∀ w ∈ s.waits, w.expired = false → w.timer ∈ s.pendingTimers
  message_lt : ∀ w ∈ s.waits, w.message < (s.messages w.group).length
  reconnects : s.reconnects ≠ [] → groups ≠ []
  shutdown : s.iocStopped = true → s.shutdownRequested = true

namespace Shape
open Connections

variable {g : Nat} {c : WsClient}

theorem ne_nil (h : Shape groups s) (hrun : s.iocStopped = false) (hc : s.client g = some c) :
    groups ≠ [] := by
  have hlt := h.length_eq hrun ▸ lt_of_client hc
  exact List.ne_nil_of_length_pos (Nat.zero_lt_of_lt hlt)

theorem start (h : Shape groups s) : Shape groups (Connections.start groups s) := by
  rcases eq_or_ne groups [] with rfl | hne
  · have hmessages : (Connections.start [] s).messages = s.messages := by
      funext g
      rw [Connections.messages, Connections.messages, h.groups_eq]
      rfl
    exact { h with groups_eq := rfl, message_lt := hmessages ▸ h.message_lt }
  · have hmessages : (Connections.start groups s).messages = s.messages := by
      funext g
      rw [start_eq hne, Connections.messages, Connections.messages, h.groups_eq]
    rw [start_eq hne] at hmessages ⊢
    refine { h with groups_eq := rfl, length_eq := ?_, filled := ?_, message_lt := ?_ }
    · exact fun _ => length_fresh ..
    · simp [fresh]
    · exact hmessages ▸ h.message_lt

theorem setClient (h : Shape groups s) : Shape groups (s.setClient g c) where
  groups_eq := h.groups_eq
  length_eq hrun := (List.length_set ..).trans (h.length_eq hrun)
  filled hnone := by
    rcases List.mem_or_eq_of_mem_set hnone with hnone | heq
    · exact h.filled hnone
    · cases heq
  pending := h.pending
  message_lt := h.message_lt
  reconnects := h.reconnects
  shutdown := h.shutdown

theorem scheduleReconnect (h : Shape groups s) (hne : groups ≠ []) :
    Shape groups s.scheduleReconnect :=
  { h with reconnects := fun _ => hne }

theorem stop (h : Shape groups s) : Shape groups s.stop where
  groups_eq := h.groups_eq
  length_eq hrun := (List.length_map ..).trans (h.length_eq hrun)
  filled hnone := by
    obtain ⟨o, ho, hmap⟩ := List.mem_map.mp hnone
    rw [Option.map_eq_none_iff] at hmap
    exact h.filled (hmap ▸ ho)
  pending w hw hexp := by
    obtain ⟨hw, hkeep⟩ := List.mem_filter.mp hw
    have := h.pending w hw hexp
    simp_all
  message_lt w hw := h.message_lt w (List.mem_filter.mp hw).1
  reconnects := h.reconnects
  shutdown := h.shutdown

theorem onConnected (h : Shape groups s) : Shape groups (s.onConnected g c) := by
  have hsends := sends_onConnected s g c
  have hset : Shape groups { s.setClient g c with reconnectAttempts := 0 } :=
    { h.setClient with }
  refine ⟨?_, ?_, ?_, fun w hw hexp => ?_, fun w hw => ?_, ?_, ?_⟩
  · rw [hsends.frame]; exact hset.groups_eq
  · rw [hsends.frame]; exact hset.length_eq
  · rw [hsends.frame]; exact hset.filled
  · rcases hsends.waits w hw with hw | ⟨-, -, htimer, -⟩
    · exact hsends.pending (hset.pending w hw hexp)
    · exact htimer
  · have hmessages : (s.onConnected g c).messages w.group = s.messages w.group := by
      rw [hsends.frame]
      rfl
    rw [hmessages]
    rcases hsends.waits w hw with hw | ⟨hg, -, -, hm⟩
    · exact h.message_lt w hw
    · exact hg ▸ hm
  · rw [hsends.frame]; exact hset.reconnects
  · rw [hsends.frame]; exact hset.shutdown

theorem expire (h : Shape groups s) (timer : Nat) : Shape groups (s.expire timer) := by
  refine { h with pending := fun w hw hexp => ?_, message_lt := fun w hw => ?_ }
  all_goals
    obtain ⟨w', hw', rfl⟩ := List.mem_map.mp hw
  · split at hexp
    next => cases hexp
    next hne =>
      rw [if_neg hne]
      exact h.pending w' hw' hexp
  · split
    all_goals exact h.message_lt w' hw'

theorem dropWait (h : Shape groups s) (w : Wait) : Shape groups (s.dropWait w) :=
  { h with
    pending := fun w hw => h.pending w (List.mem_filter.mp hw).1
    message_lt := fun w hw => h.message_lt w (List.mem_filter.mp hw).1 }

theorem ne_nil_of_reconnect (h : Shape groups s) {i : Nat} {delay : UInt32}
    (hdelay : s.reconnects[i]? = some delay) : groups ≠ [] :=
  h.reconnects (List.ne_nil_of_mem (List.mem_of_getElem? hdelay))

theorem dropReconnect (h : Shape groups s) (i : Nat) : Shape groups (s.dropReconnect i) :=
  { h with reconnects := fun hne => h.reconnects fun hnil => hne (by
      rw [Connections.dropReconnect, hnil]; rfl) }

theorem step (h : Shape groups s) (hs : step groups s a = some t) : Shape groups t := by
  cases effect_of_step hs with
  | connected => exact h.onConnected
  | connectFailed hrun hc =>
    exact scheduleReconnect { h.setClient with } (h.ne_nil hrun hc)
  | connectFailedAgain => exact { h.setClient with }
  | disconnected hrun hc => exact h.setClient.stop.scheduleReconnect (h.ne_nil hrun hc)
  | disconnectIgnored => exact h.setClient
  | timerExpired => exact h.expire _
  | timerCallback => exact { h.dropWait _ with }
  | timerIgnored => exact h.dropWait _
  | reconnectExpired => exact start { h.dropReconnect _ with }
  | reconnectIgnored => exact h.dropReconnect _
  | requestShutdown => exact { h with shutdown := fun _ => rfl }
  | stop => exact h.stop
  | stopContext hshutdown =>
    exact { h with length_eq := fun hrun => absurd hrun (by simp), shutdown := fun _ => hshutdown }
  | destroy hstopped =>
    refine { h with length_eq := fun hrun => ?_, filled := List.not_mem_nil }
    exact absurd (hstopped.symm.trans hrun) (by decide)

theorem init (groups : List SubscriptionGroup) : Shape groups (machine groups).init := by
  have hwaits (P : Wait → Prop) : ∀ w ∈ ([] : List Wait), P w := fun w hw => absurd hw (by simp)
  rw [init_eq]
  exact ⟨rfl, fun _ => length_fresh .., by simp [fresh], hwaits _, hwaits _,
    fun hnil => absurd rfl hnil, fun hstopped => absurd hstopped (by simp)⟩

end Shape

end SymbolChannel
end Sqc
