import SmartQuantCollector.Exchange.Crypto.SymbolChannel

/-! # `WsClient` (`src/network/ws_client.cpp`)

A client goes from one asynchronous operation to the next: it resolves the name, connects, shakes
hands twice, and then reads messages one after the other. `Close` and `Write` are called by other
threads as well. They only touch `is_open_` and post to the `io_context`, but they can do this in
the middle of a callback, so an action is one access to `is_open_` or one callback of the user.

`session_protocol` says which callbacks the user of a client gets, over every run: one answer to
`Connect`, then the messages in the order in which they were received, then at most one disconnect.
After a `Close` that has found the client open at most one more message comes; a `Close` before
that, or behind a failed read, does nothing. `session_simulates` is the link to `SymbolChannel`,
which has a client go through five statuses and calls nothing but `passes` and `close` on it
(`step_eq_outlineStep`). -/

namespace Sqc
open Concurrency

namespace WsConnection

/-- What a client does next. -/
inductive Stage where
  | resolving
  | connecting
  | securing
  | upgrading
  /-- `is_open_` is set, and `on_connect_(true)` is next. -/
  | opening
  /-- `async_read` is pending. -/
  | reading
  /-- The message handler has returned, and `is_open_` is loaded next. -/
  | delivered
  /-- A read has failed, `is_open_` is cleared, and `on_disconnect_()` is next. -/
  | lost
  | failed
  /-- The read loop has ended because `is_open_` was cleared. -/
  | stopped
  | disconnected
deriving DecidableEq

/-- The stages in the middle of a callback. -/
def Stage.midCallback : Stage → Bool
  | .opening | .delivered | .lost => true
  | _ => false

/-- The calls that the user of a client gets. -/
inductive Callback (μ : Type) where
  | connected (success : Bool)
  | message (m : μ)
  | disconnected
deriving DecidableEq

/-- What is posted to the `io_context`. -/
inductive Posted where
  | write (message : String)
  | close
deriving DecidableEq

structure State (μ : Type) where
  stage : Stage := .resolving
  /-- `is_open_` -/
  isOpen : Bool := false
  posted : List Posted := []
  /-- The writes that were started. -/
  writes : List String := []
  /-- The calls of `ws_.close`. -/
  closes : Nat := 0
  calls : List (Callback μ) := []
  -- the history of the run
  /-- A `Close` has found `is_open_` set and has cleared it. -/
  closed : Bool := false
  /-- The messages that were delivered after this. -/
  late : Nat := 0

inductive Action (μ : Type) where
  | resolved (ok : Bool)
  | connected (ok : Bool)
  | secured (ok : Bool)
  | upgraded (ok : Bool)
  /-- `on_connect_(true)` -/
  | onConnect
  | received (m : μ)
  /-- The load of `is_open_` behind the message handler. -/
  | recheck
  | readFailed
  | onDisconnect
  /-- The next posted function runs. -/
  | runPosted
  | close
  | write (message : String)
deriving DecidableEq

variable {μ : Type} {subscriptions : List String} {s t : State μ} {as : List (Action μ)}

def State.call (s : State μ) (c : Callback μ) : State μ := { s with calls := s.calls ++ [c] }

/-- An operation of `Connect` ends. -/
def passOn (s : State μ) (stage next : Stage) (ok : Bool) : Option (State μ) :=
  if s.stage = stage then
    if ok then some { s with stage := next }
    else some { s.call (.connected false) with stage := .failed }
  else none

def onHandshake (s : State μ) (ok : Bool) : Option (State μ) :=
  (passOn s .upgrading .opening ok).map fun s => if ok then { s with isOpen := true } else s

/-- The callback of `SymbolChannel::Start`: the subscriptions without delay are written, and the
first read is started. -/
def onConnect (subscriptions : List String) (s : State μ) : Option (State μ) :=
  if s.stage = .opening then
    some { s.call (.connected true) with
      posted := s.posted ++ subscriptions.map .write
      stage := .reading }
  else none

def received (s : State μ) (m : μ) : Option (State μ) :=
  if s.stage = .reading then
    some { s.call (.message m) with
      stage := .delivered
      late := if s.closed then s.late + 1 else s.late }
  else none

def recheck (s : State μ) : Option (State μ) :=
  if s.stage = .delivered then
    some { s with stage := if s.isOpen then .reading else .stopped }
  else none

def readFailed (s : State μ) : Option (State μ) :=
  if s.stage = .reading then some { s with isOpen := false, stage := .lost } else none

def onDisconnect (s : State μ) : Option (State μ) :=
  if s.stage = .lost then some { s.call .disconnected with stage := .disconnected } else none

def runPosted (s : State μ) : Option (State μ) :=
  if s.stage.midCallback then none
  else
    match s.posted with
    | [] => none
    | .write message :: rest => some { s with posted := rest, writes := s.writes ++ [message] }
    | .close :: rest => some { s with posted := rest, closes := s.closes + 1 }

def close (s : State μ) : State μ :=
  if s.isOpen then
    { s with isOpen := false, closed := true, posted := s.posted ++ [.close] }
  else s

def write (s : State μ) (message : String) : State μ :=
  { s with posted := s.posted ++ [.write message] }

def step (subscriptions : List String) (s : State μ) : Action μ → Option (State μ)
  | .resolved ok => passOn s .resolving .connecting ok
  | .connected ok => passOn s .connecting .securing ok
  | .secured ok => passOn s .securing .upgrading ok
  | .upgraded ok => onHandshake s ok
  | .onConnect => onConnect subscriptions s
  | .received m => received s m
  | .recheck => recheck s
  | .readFailed => readFailed s
  | .onDisconnect => onDisconnect s
  | .runPosted => runPosted s
  | .close => some (close s)
  | .write message => some (write s message)

/-- A client on which `Connect` was called. -/
def machine (subscriptions : List String) : Machine (State μ) (Action μ) where
  init := {}
  step := step subscriptions

/-! ## What a step does -/

/-- `Connect` has not answered yet. -/
def Stage.early : Stage → Bool
  | .resolving | .connecting | .securing | .upgrading => true
  | _ => false

inductive Effect (subscriptions : List String) (s : State μ) : Action μ → State μ → Prop where
  | passes {a next} (early : s.stage.early = true) (next_early : next.early = true)
      (silent : ∀ m, a ≠ .received m) : Effect subscriptions s a { s with stage := next }
  | fails {a} (early : s.stage.early = true) (silent : ∀ m, a ≠ .received m) :
      Effect subscriptions s a { s.call (.connected false) with stage := .failed }
  | opens (early : s.stage.early = true) :
      Effect subscriptions s (.upgraded true) { s with stage := .opening, isOpen := true }
  | connects (stage : s.stage = .opening) :
      Effect subscriptions s .onConnect
        { s.call (.connected true) with
          posted := s.posted ++ subscriptions.map .write
          stage := .reading }
  | receives {m} (stage : s.stage = .reading) :
      Effect subscriptions s (.received m)
        { s.call (.message m) with
          stage := .delivered
          late := if s.closed then s.late + 1 else s.late }
  | readsOn (stage : s.stage = .delivered) (isOpen : s.isOpen = true) :
      Effect subscriptions s .recheck { s with stage := .reading }
  | stops (stage : s.stage = .delivered) (isOpen : s.isOpen = false) :
      Effect subscriptions s .recheck { s with stage := .stopped }
  | loses (stage : s.stage = .reading) :
      Effect subscriptions s .readFailed { s with isOpen := false, stage := .lost }
  | disconnects (stage : s.stage = .lost) :
      Effect subscriptions s .onDisconnect
        { s.call .disconnected with stage := .disconnected }
  | startsWrite {message rest} (posted : s.posted = .write message :: rest) :
      Effect subscriptions s .runPosted
        { s with posted := rest, writes := s.writes ++ [message] }
  | closesSocket {rest} (posted : s.posted = .close :: rest) :
      Effect subscriptions s .runPosted { s with posted := rest, closes := s.closes + 1 }
  | closes (isOpen : s.isOpen = true) :
      Effect subscriptions s .close
        { s with isOpen := false, closed := true, posted := s.posted ++ [.close] }
  | closesNothing : Effect subscriptions s .close s
  | posts {message} : Effect subscriptions s (.write message) (write s message)

theorem effect_of_passOn {a : Action μ} {stage next : Stage} {ok : Bool}
    (hstage : stage.early = true) (hnext : next.early = true) (ha : ∀ m, a ≠ .received m)
    (h : passOn s stage next ok = some t) : Effect subscriptions s a t := by
  unfold passOn at h
  split at h
  next heq =>
    cases ok with
    | true => cases h; exact .passes (heq ▸ hstage) hnext ha
    | false => cases h; exact .fails (heq ▸ hstage) ha
  next => cases h

theorem effect_of_step {a : Action μ} (h : step subscriptions s a = some t) :
    Effect subscriptions s a t := by
  cases a with
  | resolved ok | connected ok | secured ok =>
    exact effect_of_passOn rfl rfl (fun m heq => by cases heq) h
  | upgraded ok =>
    obtain ⟨u, hu, rfl⟩ := Option.map_eq_some_iff.mp h
    unfold passOn at hu
    split at hu
    next heq =>
      cases ok with
      | true => cases hu; exact .opens (heq ▸ rfl)
      | false => cases hu; exact .fails (heq ▸ rfl) fun m heq => by cases heq
    next => cases hu
  | onConnect =>
    simp only [step, onConnect] at h
    split at h
    next heq => cases h; exact .connects heq
    next => cases h
  | received m =>
    simp only [step, received] at h
    split at h
    next heq => cases h; exact .receives heq
    next => cases h
  | recheck =>
    simp only [step, recheck] at h
    split at h
    next heq =>
      by_cases hopen : s.isOpen = true
      · rw [if_pos hopen] at h
        cases h
        exact .readsOn heq hopen
      · rw [if_neg hopen] at h
        cases h
        exact .stops heq (Bool.eq_false_iff.mpr hopen)
    next => cases h
  | readFailed =>
    simp only [step, readFailed] at h
    split at h
    next heq => cases h; exact .loses heq
    next => cases h
  | onDisconnect =>
    simp only [step, onDisconnect] at h
    split at h
    next heq => cases h; exact .disconnects heq
    next => cases h
  | runPosted =>
    simp only [step, runPosted] at h
    split at h
    next => cases h
    next =>
      split at h
      next => cases h
      next hposted => cases h; exact .startsWrite hposted
      next hposted => cases h; exact .closesSocket hposted
  | close =>
    simp only [step, close] at h
    split at h
    next hopen => cases h; exact .closes hopen
    next => cases h; exact .closesNothing
  | write message => cases h; exact .posts

/-! ## The callbacks of a run -/

/-- The calls when the messages `ms` were received. -/
def Stage.calls (ms : List μ) : Stage → List (Callback μ)
  | .resolving | .connecting | .securing | .upgrading | .opening => []
  | .failed => [.connected false]
  | .reading | .delivered | .lost | .stopped => .connected true :: ms.map .message
  | .disconnected => .connected true :: ms.map .message ++ [.disconnected]

/-- No read was started. -/
def Stage.beforeRead : Stage → Bool
  | .resolving | .connecting | .securing | .upgrading | .opening | .failed => true
  | _ => false

def Action.message : Action μ → Option μ
  | .received m => some m
  | _ => none

structure Answers (as : List (Action μ)) (s : State μ) : Prop where
  calls : s.calls = s.stage.calls (as.filterMap Action.message)
  silent : s.stage.beforeRead = true → as.filterMap Action.message = []

theorem Stage.calls_of_early {stage : Stage} (h : stage.early = true) (ms : List μ) :
    stage.calls ms = [] := by
  cases stage <;> first | rfl | cases h

theorem Stage.beforeRead_of_early {stage : Stage} (h : stage.early = true) :
    stage.beforeRead = true := by
  cases stage <;> first | rfl | cases h

theorem message_eq_none {a : Action μ} (h : ∀ m, a ≠ .received m) : a.message = none := by
  cases a with
  | received m => exact absurd rfl (h m)
  | _ => rfl

theorem Answers.step {a : Action μ} (h : Answers as s)
    (hs : WsConnection.step subscriptions s a = some t) : Answers (as ++ [a]) t := by
  have hquiet {a : Action μ} (ha : a.message = none) :
      (as ++ [a]).filterMap Action.message = as.filterMap Action.message := by
    rw [List.filterMap_append, List.filterMap_cons_none ha, List.filterMap_nil, List.append_nil]
  cases effect_of_step hs with
  | passes early next_early silent =>
    have hms := h.silent (Stage.beforeRead_of_early early)
    refine ⟨?_, fun _ => (hquiet (message_eq_none silent)).trans hms⟩
    rw [hquiet (message_eq_none silent)]
    exact h.calls.trans ((Stage.calls_of_early early _).trans
      (Stage.calls_of_early next_early _).symm)
  | fails early silent =>
    have hms := h.silent (Stage.beforeRead_of_early early)
    refine ⟨?_, fun _ => (hquiet (message_eq_none silent)).trans hms⟩
    show s.calls ++ [.connected false] = [.connected false]
    rw [h.calls, Stage.calls_of_early early, List.nil_append]
  | opens early =>
    have hms := h.silent (Stage.beforeRead_of_early early)
    exact ⟨h.calls.trans (Stage.calls_of_early early _), fun _ => (hquiet rfl).trans hms⟩
  | connects hstage =>
    have hms := h.silent (hstage ▸ rfl)
    refine ⟨?_, fun hbefore => by cases hbefore⟩
    show s.calls ++ [.connected true] = .connected true :: _
    rw [h.calls, hstage, hquiet rfl, hms]
    rfl
  | receives hstage =>
    refine ⟨?_, fun hbefore => by cases hbefore⟩
    show s.calls ++ [.message _] = .connected true :: _
    rw [h.calls, hstage, List.filterMap_append, List.map_append]
    rfl
  | readsOn hstage | stops hstage | loses hstage =>
    refine ⟨?_, fun hbefore => by cases hbefore⟩
    rw [hquiet rfl]
    exact h.calls.trans (by rw [hstage]; rfl)
  | disconnects hstage =>
    refine ⟨?_, fun hbefore => by cases hbefore⟩
    show s.calls ++ [.disconnected] = _
    rw [h.calls, hstage, hquiet rfl]
    rfl
  | startsWrite | closesSocket | closes | closesNothing | posts =>
    refine ⟨?_, fun hbefore => ?_⟩
    · rw [hquiet rfl]
      exact h.calls
    · rw [hquiet rfl]
      exact h.silent hbefore

/-! ## After `Close` -/

/-- A message may come without another look at `is_open_`. -/
def Stage.reads : Stage → Nat
  | .opening | .reading => 1
  | _ => 0

structure Closing (s : State μ) : Prop where
  early : s.stage.early = true → s.isOpen = false ∧ s.closed = false
  isOpen : s.isOpen = true → s.closed = false
  notLate : s.closed = false → s.late = 0
  late : s.late + s.stage.reads ≤ 1
  closes : s.closes + s.posted.count .close = if s.closed then 1 else 0

theorem Stage.reads_le_one (stage : Stage) : stage.reads ≤ 1 := by
  cases stage <;> decide

theorem count_writes (messages : List String) : (messages.map Posted.write).count .close = 0 := by
  rw [List.count_eq_zero]
  intro h
  obtain ⟨_, -, heq⟩ := List.mem_map.mp h
  cases heq

theorem Closing.init : Closing ({} : State μ) :=
  ⟨fun _ => ⟨rfl, rfl⟩, fun _ => rfl, fun _ => rfl, Nat.zero_le 1, rfl⟩

/-- Before `Close` no message is late, so there is room for one in every stage. -/
theorem Closing.late_of_not_closed (h : Closing s) (hclosed : s.closed = false) (stage : Stage) :
    s.late + stage.reads ≤ 1 := by
  rw [h.notLate hclosed, Nat.zero_add]
  exact stage.reads_le_one

theorem Closing.step {a : Action μ} (h : Closing s)
    (hs : WsConnection.step subscriptions s a = some t) : Closing t := by
  cases effect_of_step hs with
  | passes early _ =>
    have hlate := h.late_of_not_closed (h.early early).2
    exact { h with early := fun _ => h.early early, late := hlate _ }
  | fails early =>
    have hlate := h.late_of_not_closed (h.early early).2
    refine { h with early := fun hfailed => ?_, late := hlate _ }
    cases hfailed
  | opens early =>
    have hclosed := (h.early early).2
    have hlate := h.late_of_not_closed hclosed
    refine { h with early := fun hearly => ?_, isOpen := fun _ => hclosed, late := hlate _ }
    cases hearly
  | connects hstage =>
    have hlate := h.late
    rw [hstage] at hlate
    refine { h with early := fun hearly => ?_, late := hlate, closes := ?_ }
    · cases hearly
    · show s.closes + (s.posted ++ _).count _ = _
      rw [List.count_append, count_writes, Nat.add_zero]
      exact h.closes
  | receives hstage =>
    have hlate := h.late
    rw [hstage] at hlate
    refine ⟨fun hearly => ?_, h.isOpen, fun hclosed => ?_, ?_, h.closes⟩
    · cases hearly
    · change s.closed = false at hclosed
      show (if s.closed = true then _ else _) = 0
      rw [hclosed]
      exact h.notLate hclosed
    · show (if s.closed = true then _ else _) + 0 ≤ 1
      change s.late + 1 ≤ 1 at hlate
      split <;> omega
  | readsOn hstage hopen =>
    have hlate := h.late_of_not_closed (h.isOpen hopen)
    refine { h with early := fun hearly => ?_, late := hlate _ }
    cases hearly
  | stops hstage =>
    refine { h with early := fun hearly => ?_, late := Nat.le_trans ?_ h.late }
    · cases hearly
    · exact Nat.le_add_right ..
  | loses hstage =>
    refine ⟨fun hearly => ?_, fun hopen => ?_, h.notLate, Nat.le_trans ?_ h.late, h.closes⟩
    · cases hearly
    · cases hopen
    · exact Nat.le_add_right ..
  | disconnects hstage =>
    refine { h with early := fun hearly => ?_, late := Nat.le_trans ?_ h.late }
    · cases hearly
    · exact Nat.le_add_right ..
  | startsWrite hposted =>
    have hcloses := h.closes
    rw [hposted, List.count_cons_of_ne (by simp)] at hcloses
    exact { h with closes := hcloses }
  | closesSocket hposted =>
    have hcloses := h.closes
    rw [hposted, List.count_cons_self] at hcloses
    refine { h with closes := ?_ }
    show s.closes + 1 + _ = _
    rw [← hcloses, Nat.add_assoc, Nat.add_comm 1]
  | closes hopen =>
    have hclosed := h.isOpen hopen
    have hcloses := h.closes
    rw [hclosed] at hcloses
    refine ⟨fun hearly => ?_, fun hopen => ?_, fun hopen => ?_, h.late, ?_⟩
    · rw [(h.early hearly).1] at hopen
      cases hopen
    · cases hopen
    · cases hopen
    · show s.closes + (s.posted ++ [Posted.close]).count .close = 1
      rw [List.count_append, ← Nat.add_assoc, hcloses]
      rfl
  | closesNothing => exact h
  | posts =>
    refine { h with closes := ?_ }
    show s.closes + (s.posted ++ [Posted.write _]).count .close = _
    rw [List.count_append]
    exact h.closes

/-- What the user of a client gets from it when the actions `as` have led to `s`. -/
structure Protocol (as : List (Action μ)) (s : State μ) : Prop where
  /-- One answer to `Connect`, the messages that were received, at most one disconnect. -/
  calls : s.calls = s.stage.calls (as.filterMap Action.message)
  /-- Nothing is received before the answer. -/
  silent : s.stage.beforeRead = true → as.filterMap Action.message = []
  /-- A `Close` that has found the client open is felt at the next look at `is_open_`. -/
  late : s.late ≤ 1
  /-- The socket is closed at most once, by whatever number of threads. -/
  closes : s.closes ≤ 1

theorem session_protocol (subscriptions : List String) (as : List (Action μ)) (s : State μ)
    (hs : (machine subscriptions).exec (machine subscriptions).init as = some s) :
    Protocol as s := by
  have hinit : Answers [] (machine (μ := μ) subscriptions).init := ⟨rfl, fun _ => rfl⟩
  have hanswers := (machine subscriptions).exec_history (R := Answers)
    (fun _ _ _ _ h _ hs => h.step hs) hinit (machine subscriptions).along_true hs
  have hclosing := (machine subscriptions).exec_invariant (I := Closing)
    (fun _ _ _ h _ hs => h.step hs) .init (machine subscriptions).along_true hs
  refine ⟨hanswers.calls, hanswers.silent, Nat.le_trans (Nat.le_add_right ..) hclosing.late, ?_⟩
  have hcloses := hclosing.closes
  split at hcloses <;> omega

/-- Two threads close a client just when it has connected. One message still comes, and the read
loop ends without a disconnect. -/
def closedEarly : List (Action Nat) :=
  [.resolved true, .connected true, .secured true, .upgraded true, .close, .onConnect, .close,
    .runPosted, .received 7, .recheck, .runPosted]

theorem closedEarly_protocol :
    ∃ s, (machine ["subscribe"]).exec (machine ["subscribe"]).init closedEarly = some s ∧
      s.calls = [.connected true, .message 7] ∧ s.closes = 1 ∧ Protocol closedEarly s := by
  have hrun : ((machine ["subscribe"]).exec (machine ["subscribe"]).init closedEarly).map
      (fun s => (s.calls, s.closes)) = some ([.connected true, .message 7], 1) := by decide
  obtain ⟨s, hs, hresult⟩ := Option.map_eq_some_iff.mp hrun
  obtain ⟨hcalls, hcloses⟩ := Prod.mk.inj hresult
  exact ⟨s, hs, hcalls, hcloses, session_protocol ["subscribe"] closedEarly s hs⟩

/-! ## The client of a channel -/

/-- The callbacks without the messages. -/
def Callback.outline : Callback μ → Option (Callback Empty)
  | .connected success => some (.connected success)
  | .message _ => none
  | .disconnected => some .disconnected

/-- A client as `SymbolChannel` has it, and the callbacks it has made. -/
structure Outline where
  client : WsClient
  calls : List (Callback Empty) := []

inductive OutlineAction where
  | connected
  | connectFailed
  | disconnected
  | close

def Outline.after (u : Outline) (next : WsClient.Status) (c : Callback Empty) : Outline :=
  ⟨{ u.client with status := next }, u.calls ++ [c]⟩

/-- `SymbolChannel.passes`, for one client. -/
def Outline.passes (u : Outline) (allowed : List WsClient.Status) (next : WsClient.Status)
    (c : Callback Empty) : Option Outline :=
  if allowed.contains u.client.status then some (u.after next c) else none

def Outline.close (u : Outline) : Outline := { u with client := u.client.close }

def outlineStep (u : Outline) : OutlineAction → Option Outline
  | .connected => u.passes [.connecting] .connected (.connected true)
  | .connectFailed => u.passes [.connecting] .failed (.connected false)
  | .disconnected => u.passes [.connected, .closing] .closed .disconnected
  | .close => some u.close

/-- The callbacks of a client are steps of its channel in the same statuses, and the channel goes on
with the client that they leave. -/
theorem step_eq_outlineStep {groups : List SubscriptionGroup} {conns : SymbolChannel.Connections}
    {g : Nat} {u : Outline} (hrun : conns.iocStopped = false)
    (hclient : conns.client g = some u.client) :
    SymbolChannel.step groups conns (.connected g) =
      (outlineStep u .connected).map (fun v => conns.onConnected g v.client) ∧
    SymbolChannel.step groups conns (.connectFailed g) =
      (outlineStep u .connectFailed).map (fun v => conns.onConnectFailed g v.client) ∧
    SymbolChannel.step groups conns (.disconnected g) =
      (outlineStep u .disconnected).map (fun v => conns.onReadFailed g v.client) := by
  have hpasses (allowed : List WsClient.Status) (next : WsClient.Status) (c : Callback Empty)
      (f : WsClient → SymbolChannel.Connections) :
      SymbolChannel.callback conns ((SymbolChannel.passes conns g allowed next).map f) =
        (u.passes allowed next c).map fun v => f v.client := by
    rw [SymbolChannel.callback, hrun, if_neg Bool.false_ne_true,
      SymbolChannel.passes, hclient, Outline.passes,
      Option.filter_some]
    split <;> rfl
  exact ⟨hpasses _ _ _ _, hpasses _ _ _ _, hpasses _ _ _ _⟩

def outlineMachine (id : Nat) : Machine Outline OutlineAction where
  init := { client := ⟨id, .connecting⟩ }
  step := outlineStep

/-- The statuses that stand for a stage. -/
def Stage.Has (isOpen : Bool) (status : WsClient.Status) : Stage → Prop
  | .resolving | .connecting | .securing | .upgrading | .opening => status = .connecting
  | .reading | .delivered => status = if isOpen then .connected else .closing
  | .lost => status = .connected ∨ status = .closing
  | .stopped => status = .closing
  | .failed => status = .failed
  | .disconnected => status = .closed

structure Simulates (s : State μ) (u : Outline) : Prop where
  calls : u.calls = s.calls.filterMap Callback.outline
  status : s.stage.Has s.isOpen u.client.status

theorem Stage.has_of_early {stage : Stage} (h : stage.early = true) {isOpen : Bool}
    {status : WsClient.Status} : stage.Has isOpen status ↔ status = .connecting := by
  cases stage <;> first | exact Iff.rfl | cases h

/-- Only a client that reads shows whether it is open. -/
theorem Stage.Has.isOpen_irrelevant {stage : Stage} {isOpen isOpen' : Bool}
    {status : WsClient.Status} (h : stage.Has isOpen status) (hreading : stage ≠ .reading)
    (hdelivered : stage ≠ .delivered) : stage.Has isOpen' status := by
  cases stage with
  | reading => exact absurd rfl hreading
  | delivered => exact absurd rfl hdelivered
  | _ => exact h

theorem outline_call {u : Outline} (h : u.calls = s.calls.filterMap Callback.outline)
    {c : Callback μ} {c' : Callback Empty} (hc : c.outline = some c') :
    u.calls ++ [c'] = (s.calls ++ [c]).filterMap Callback.outline := by
  rw [List.filterMap_append, h, List.filterMap_cons_some hc]
  rfl

theorem passes_eq {u : Outline} {allowed : List WsClient.Status} {next : WsClient.Status}
    {c : Callback Empty} (h : u.client.status ∈ allowed) :
    u.passes allowed next c = some (u.after next c) := if_pos (List.contains_iff_mem.mpr h)

theorem close_of_connected {u : Outline} (h : u.client.status = .connected) :
    u.close.client.status = .closing := by
  rw [Outline.close, WsClient.close, WsClient.isOpen, h]
  rfl

namespace Simulates

variable {u : Outline}

theorem closes (h : Simulates s u) (hopen : s.isOpen = true) {posted : List Posted} (id : Nat) :
    ∃ bs v, (outlineMachine id).exec u bs = some v ∧
      Simulates { s with isOpen := false, closed := true, posted := posted } v := by
  have hstatus := h.status
  rw [hopen] at hstatus
  by_cases hreads : s.stage = .reading ∨ s.stage = .delivered
  · refine ⟨[.close], u.close, rfl, h.calls, ?_⟩
    show s.stage.Has false _
    rcases hreads with hstage | hstage <;> rw [hstage] at hstatus ⊢ <;>
      exact close_of_connected hstatus
  · obtain ⟨hreading, hdelivered⟩ := not_or.mp hreads
    exact ⟨[], u, rfl, h.calls, hstatus.isOpen_irrelevant hreading hdelivered⟩

theorem connects (h : Simulates s u) (hstage : s.stage = .opening) {posted : List Posted}
    (id : Nat) :
    ∃ bs v, (outlineMachine id).exec u bs = some v ∧
      Simulates { s.call (.connected true) with posted := posted, stage := .reading } v := by
  have hstatus := h.status
  rw [hstage] at hstatus
  have hallowed : u.client.status ∈ [WsClient.Status.connecting] := List.mem_singleton.mpr hstatus
  cases hopen : s.isOpen with
  | true =>
    refine ⟨[.connected], u.after .connected (.connected true), ?_, outline_call h.calls rfl, ?_⟩
    · rw [Machine.exec_singleton]
      exact passes_eq hallowed
    · show _ = if s.isOpen = true then _ else _
      rw [if_pos hopen]
      rfl
  | false =>
    -- `Close` has come in between, and the channel sees it afterwards
    refine ⟨[.connected, .close], (u.after .connected (.connected true)).close, ?_,
      outline_call h.calls rfl, ?_⟩
    · rw [Machine.exec_cons_iff]
      exact ⟨_, passes_eq hallowed, rfl⟩
    · show _ = if s.isOpen = true then _ else _
      rw [if_neg (Bool.eq_false_iff.mp hopen)]
      exact close_of_connected rfl

theorem step {a : Action μ} (h : Simulates s u) (id : Nat)
    (hs : WsConnection.step subscriptions s a = some t) :
    ∃ bs v, (outlineMachine id).exec u bs = some v ∧ Simulates t v := by
  have hstatus := h.status
  cases effect_of_step hs with
  | passes early next_early =>
    have hconnecting := (Stage.has_of_early early).mp hstatus
    exact ⟨[], u, rfl, h.calls, (Stage.has_of_early next_early).mpr hconnecting⟩
  | fails early =>
    have hconnecting := (Stage.has_of_early early).mp hstatus
    refine ⟨[.connectFailed], u.after .failed (.connected false), ?_, outline_call h.calls rfl, rfl⟩
    rw [Machine.exec_singleton]
    exact passes_eq (List.mem_singleton.mpr hconnecting)
  | opens early => exact ⟨[], u, rfl, h.calls, (Stage.has_of_early early).mp hstatus⟩
  | connects hstage => exact h.connects hstage id
  | receives hstage =>
    rw [hstage] at hstatus
    refine ⟨[], u, rfl, ?_, hstatus⟩
    show u.calls = (s.calls ++ [_]).filterMap _
    rw [List.filterMap_append, ← h.calls]
    exact (List.append_nil _).symm
  | readsOn hstage =>
    rw [hstage] at hstatus
    exact ⟨[], u, rfl, h.calls, hstatus⟩
  | stops hstage hopen =>
    rw [hstage, hopen] at hstatus
    exact ⟨[], u, rfl, h.calls, hstatus⟩
  | loses hstage =>
    rw [hstage] at hstatus
    refine ⟨[], u, rfl, h.calls, ?_⟩
    change _ = if s.isOpen = true then _ else _ at hstatus
    show _ ∨ _
    rw [hstatus]
    split
    next => exact .inl rfl
    next => exact .inr rfl
  | disconnects hstage =>
    rw [hstage] at hstatus
    refine ⟨[.disconnected], u.after .closed .disconnected, ?_, outline_call h.calls rfl, rfl⟩
    rw [Machine.exec_singleton]
    exact passes_eq (List.mem_pair.mpr hstatus)
  | closes hopen => exact h.closes hopen id
  | startsWrite | closesSocket | closesNothing | posts => exact ⟨[], u, rfl, h.calls, h.status⟩

end Simulates

/-- Every run of a client is a run of the client that `SymbolChannel` has, with the same callbacks
but for the messages. -/
theorem session_simulates (subscriptions : List String) (id : Nat) (as : List (Action μ))
    (s : State μ) (hs : (machine subscriptions).exec (machine subscriptions).init as = some s) :
    ∃ bs u, (outlineMachine id).exec (outlineMachine id).init bs = some u ∧ Simulates s u := by
  have hinit : Simulates (machine (μ := μ) subscriptions).init (outlineMachine id).init :=
    ⟨rfl, rfl⟩
  exact (machine subscriptions).exec_simulates (fun h hs => h.step id hs) hinit hs

theorem closedEarly_simulates :
    ∃ s : State Nat,
      (machine ["subscribe"]).exec (machine ["subscribe"]).init closedEarly = some s ∧
      ∃ bs u, (outlineMachine 3).exec (outlineMachine 3).init bs = some u ∧ Simulates s u := by
  have hrun : ((machine ["subscribe"]).exec (machine ["subscribe"]).init closedEarly).isSome :=
    by decide
  obtain ⟨s, hs⟩ := Option.isSome_iff_exists.mp hrun
  exact ⟨s, hs, session_simulates ["subscribe"] 3 closedEarly s hs⟩

end WsConnection

end Sqc
