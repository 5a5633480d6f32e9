import Mathlib.Logic.Function.Basic
import SmartQuantCollector.Lib.Checked
import SmartQuantCollector.Lib.Machine

/-! # `DolphinDBClient` (`src/storage/client/dolphindb_client.cpp`)

The client's pointers: `conn_`, the three writers, and `connected_`, which says that they may be
used. A method is a program that goes wrong when it uses a null pointer. What the DolphinDB library
does in a call (connect, login, the scripts of `DolphinDBSchema`, a writer's constructor, `insert`,
`close`, ...) is an `Answer` that comes from outside.

`neverNull_iff` says which sequences of calls keep the pointers and `connected_` in step. -/

namespace Sqc
open Concurrency Fallible Checked

namespace DolphinDBClient

/-- How a call into the library ends; a call without a result returns anything. -/
inductive Answer where
  | returns (ok : Bool)
  | throws
deriving DecidableEq

inductive Writer where
  | trades
  | orderbook
  | bookTicker
deriving DecidableEq

/-- For a pointer, `true` says that it is not null. -/
structure Client where
  conn : Bool := true
  connected : Bool := false
  writers : Writer → Bool := fun _ => false

structure Config where
  autoInitSchema : Bool := true
  /-- `0` switches the check off. -/
  healthCheckIntervalMs : UInt32 := 5000

abbrev ClientM := Prog Unit Client

def answer : Answer → ClientM Bool
  | .returns ok => pure ok
  | .throws => throw ()

def useConn : ClientM Unit := require (·.conn)

def useWriter (w : Writer) : ClientM Unit := require (·.writers w)

def setConn (present : Bool) : ClientM Unit := modify fun s => { s with conn := present }

def setConnected (connected : Bool) : ClientM Unit := modify fun s => { s with connected }

def setWriter (w : Writer) (present : Bool) : ClientM Unit :=
  modify fun s => { s with writers := Function.update s.writers w present }

/-! ## The writers -/

/-- `drain` of `DestroyWriters`; its calls of the writer count as one. -/
def drain (w : Writer) (status : Answer) : ClientM Unit := do
  if (← get).writers w then
    tryCatch (do useWriter w; let _ ← answer status) fun _ => pure ()
    setWriter w false

def destroyWriters (status : Writer → Answer) : ClientM Unit := do
  drain .trades (status .trades)
  drain .orderbook (status .orderbook)
  drain .bookTicker (status .bookTicker)

/-- `make_unique`: the old writer goes when the new one is there. -/
def construct (w : Writer) (built : Answer) : ClientM Unit := do
  let _ ← answer built
  setWriter w true

/-- The answers of the library from `connect` on. -/
structure ConnectAnswers where
  connect : Answer
  login : Answer
  initSchema : Answer
  /-- The constructors of the writers. -/
  writers : Writer → Answer
  /-- The writers' answers in `DestroyWriters`. -/
  status : Writer → Answer
  close : Answer

def initWriters (o : ConnectAnswers) : ClientM Bool :=
  tryCatch (do
    construct .trades (o.writers .trades)
    construct .orderbook (o.writers .orderbook)
    construct .bookTicker (o.writers .bookTicker)
    pure true) fun _ => do
    destroyWriters o.status
    pure false

/-! ## The connection -/

/-- `InitSchema` of the client, which looks at `conn_` first. -/
def initSchema (o : ConnectAnswers) : ClientM Bool := do
  if (← get).conn then answer o.initSchema else pure false

/-- `conn_->close(); conn_.reset();` on a failure. -/
def dropConn (o : ConnectAnswers) : ClientM Unit := do
  useConn
  let _ ← answer o.close
  setConn false

/-- What `Connect` and `Reconnect` do with `conn_`, inside their `try`. -/
def establish (cfg : Config) (o : ConnectAnswers) : ClientM Bool :=
  tryCatch (do
    useConn
    if ← answer o.connect then
      useConn
      let _ ← answer o.login
      if ← (if cfg.autoInitSchema then initSchema o else pure true) then
        if ← initWriters o then
          setConnected true
          pure true
        else
          dropConn o
          pure false
      else
        dropConn o
        pure false
    else
      pure false) fun _ => pure false

def connect (cfg : Config) (o : ConnectAnswers) : ClientM Bool := establish cfg o

def disconnect (status : Writer → Answer) (close : Answer) : ClientM Unit := do
  destroyWriters status
  if (← get).conn then
    tryCatch (do useConn; let _ ← answer close) fun _ => pure ()
    setConn false
    setConnected false

/-- `Reconnect`; `status` and `close` are the answers of the old writers and the old connection. -/
def reconnect (cfg : Config) (status : Writer → Answer) (close : Answer) (o : ConnectAnswers) :
    ClientM Bool := do
  destroyWriters status
  tryCatch (do
    if (← get).conn then
      useConn
      let _ ← answer close) fun _ => pure ()
  setConnected false
  setConn true
  establish cfg o

/-! ## The other calls -/

/-- `IsHealthy`; the ping returns whether the server has answered 2. -/
def isHealthy (cfg : Config) (elapsedMs : UInt64) (ping : Answer) : ClientM Bool := do
  if (← get).connected then
    if cfg.healthCheckIntervalMs = 0 then pure true
    else if elapsedMs < cfg.healthCheckIntervalMs.toUInt64 then pure true
    else
      tryCatch (do
        useConn
        if ← answer ping then pure true
        else
          setConnected false
          pure false) fun _ => do
        setConnected false
        pure false
  else pure false

def validateSchema (schema : Answer) : ClientM Bool := do
  let s ← get
  if !s.connected || !s.conn then pure false
  else
    useConn
    answer schema

/-- A row to insert: whether its trade date is valid, and what `insert` answers. -/
structure Row where
  validDate : Bool
  insert : Answer

def insertRows (w : Writer) : List Row → ClientM Bool
  | [] => pure true
  | row :: rows => do
    if row.validDate then
      if ← tryCatch (do useWriter w; answer row.insert) fun _ => pure false then insertRows w rows
      else pure false
    else pure false

/-- The test at the head of the three insert methods. -/
def tableInsert (w : Writer) (rows : List Row) : ClientM Bool := do
  let s ← get
  if !s.connected || !s.writers w then pure false
  else insertRows w rows

def tableInsertTrades (batch : List Row) : ClientM Bool := tableInsert .trades batch

def tableInsertOrderbook (event : Row) : ClientM Bool := tableInsert .orderbook [event]

def tableInsertBookTicker (event : Row) : ClientM Bool := tableInsert .bookTicker [event]

/-! ## Sequences of calls -/

inductive Call where
  | connect (o : ConnectAnswers)
  | disconnect (status : Writer → Answer) (close : Answer)
  | reconnect (status : Writer → Answer) (close : Answer) (o : ConnectAnswers)
  | isHealthy (elapsedMs : UInt64) (ping : Answer)
  | validateSchema (schema : Answer)
  | tableInsertTrades (batch : List Row)
  | tableInsertOrderbook (event : Row)
  | tableInsertBookTicker (event : Row)

def step (cfg : Config) (s : Client) : Call → Option Client
  | .connect o => (runFrom (connect cfg o) s).map (·.2)
  | .disconnect status close => (runFrom (disconnect status close) s).map (·.2)
  | .reconnect status close o => (runFrom (reconnect cfg status close o) s).map (·.2)
  | .isHealthy elapsedMs ping => (runFrom (isHealthy cfg elapsedMs ping) s).map (·.2)
  | .validateSchema schema => (runFrom (validateSchema schema) s).map (·.2)
  | .tableInsertTrades batch => (runFrom (tableInsertTrades batch) s).map (·.2)
  | .tableInsertOrderbook event => (runFrom (tableInsertOrderbook event) s).map (·.2)
  | .tableInsertBookTicker event => (runFrom (tableInsertBookTicker event) s).map (·.2)

def machine (cfg : Config) : Machine Client Call where
  init := {}
  step := step cfg

/-- `connected_` says that the pointers may be used. -/
def InStep (s : Client) : Prop := s.connected = true → s.conn = true ∧ ∀ w, s.writers w = true

namespace ConnectAnswers

/-- The connection is there and logged in. -/
def loggedIn (o : ConnectAnswers) : Bool :=
  o.connect = .returns true && o.login ≠ .throws

/-- What the step that initialises the schema comes to. -/
def schema (cfg : Config) (o : ConnectAnswers) : Answer :=
  if cfg.autoInitSchema then o.initSchema else .returns true

def allWriters (o : ConnectAnswers) : Bool :=
  o.writers .trades ≠ .throws && o.writers .orderbook ≠ .throws && o.writers .bookTicker ≠ .throws

/-- The connection or the writers are given up: the schema is refused and the connection closed, or
a writer cannot be built. -/
def givesUp (cfg : Config) (o : ConnectAnswers) : Bool :=
  o.loggedIn && match o.schema cfg with
    | .returns true => !o.allWriters
    | .returns false => o.close ≠ .throws
    | .throws => false

end ConnectAnswers

/-- `Connect` needs a `conn_`, and a client that is connected must not give anything up in it. -/
def SafeConnect (cfg : Config) (s : Client) : Call → Prop
  | .connect o => s.conn = true ∧ (s.connected = true → o.givesUp cfg = false)
  | _ => True

/-! ## The writers and the connection -/

variable {cfg : Config} {s t : Client} {w : Writer} {o : ConnectAnswers}

theorem runFrom_answer (a : Answer) (s : Client) :
    runFrom (answer a) s = match a with
      | .returns ok => some (.ok ok, s)
      | .throws => some (.error (), s) := by
  cases a <;> rfl

/-- A call whose exceptions are caught and whose result is ignored. -/
theorem runFrom_tryCatch_answer {p : Client → Bool} (h : p s = true) (a : Answer) :
    runFrom (tryCatch (do require p; let _ ← answer a) fun _ => pure () : ClientM Unit) s =
      some (.ok (), s) := by
  rw [runFrom_tryCatch, runFrom_require_bind h, runFrom_bind, runFrom_answer]
  cases a <;> rfl

theorem runFrom_drain (w : Writer) (status : Answer) (s : Client) :
    runFrom (drain w status) s =
      some (.ok (), { s with writers := Function.update s.writers w false }) := by
  unfold drain
  rw [runFrom_bind_ok (runFrom_get s)]
  cases hw : s.writers w with
  | true =>
    have hcall := runFrom_tryCatch_answer (p := (·.writers w)) hw status
    rw [if_pos rfl]
    exact (runFrom_bind_ok hcall).trans rfl
  | false =>
    rw [if_neg Bool.false_ne_true, ← hw, Function.update_eq_self]
    rfl

theorem runFrom_destroyWriters (status : Writer → Answer) (s : Client) :
    runFrom (destroyWriters status) s = some (.ok (), { s with writers := fun _ => false }) := by
  unfold destroyWriters
  rw [runFrom_bind_ok (runFrom_drain ..), runFrom_bind_ok (runFrom_drain ..), runFrom_drain]
  congr 4
  funext w
  cases w <;> rfl

theorem runFrom_construct_throws {built : Answer} (h : built = .throws) :
    runFrom (construct w built) s = some (.error (), s) := by
  rw [h]
  rfl

theorem runFrom_construct_ok {built : Answer} (h : built ≠ .throws) :
    runFrom (construct w built) s =
      some (.ok (), { s with writers := Function.update s.writers w true }) := by
  cases built with
  | returns ok => rfl
  | throws => exact absurd rfl h

theorem ConnectAnswers.allWriters_iff :
    o.allWriters = true ↔ o.writers .trades ≠ .throws ∧ o.writers .orderbook ≠ .throws ∧
      o.writers .bookTicker ≠ .throws := by
  simp [allWriters, and_assoc]

/-- Either all writers are there, or none. -/
theorem runFrom_initWriters (o : ConnectAnswers) (s : Client) :
    runFrom (initWriters o) s =
      some (.ok o.allWriters, { s with writers := fun _ => o.allWriters }) := by
  have hfail : ∀ {t}, o.allWriters = false → t.conn = s.conn → t.connected = s.connected →
      runFrom (do destroyWriters o.status; pure false : ClientM Bool) t =
        some (.ok o.allWriters, { s with writers := fun _ => o.allWriters }) := by
    intro t hall hconn hconnected
    rw [runFrom_bind_ok (runFrom_destroyWriters ..), hall, ← hconn, ← hconnected]
    rfl
  unfold initWriters
  by_cases h₁ : o.writers .trades = .throws
  · rw [runFrom_tryCatch_error (runFrom_bind_error (runFrom_construct_throws h₁))]
    exact hfail (by simp [ConnectAnswers.allWriters, h₁]) rfl rfl
  by_cases h₂ : o.writers .orderbook = .throws
  · rw [runFrom_tryCatch_error ((runFrom_bind_ok (runFrom_construct_ok h₁)).trans
      (runFrom_bind_error (runFrom_construct_throws h₂)))]
    exact hfail (by simp [ConnectAnswers.allWriters, h₂]) rfl rfl
  by_cases h₃ : o.writers .bookTicker = .throws
  · rw [runFrom_tryCatch_error ((runFrom_bind_ok (runFrom_construct_ok h₁)).trans
      ((runFrom_bind_ok (runFrom_construct_ok h₂)).trans
        (runFrom_bind_error (runFrom_construct_throws h₃))))]
    exact hfail (by simp [ConnectAnswers.allWriters, h₃]) rfl rfl
  rw [ConnectAnswers.allWriters_iff.mpr ⟨h₁, h₂, h₃⟩]
  refine (runFrom_tryCatch_ok ((runFrom_bind_ok (runFrom_construct_ok h₁)).trans
    ((runFrom_bind_ok (runFrom_construct_ok h₂)).trans
      ((runFrom_bind_ok (runFrom_construct_ok h₃)).trans (runFrom_pure true _))))).trans ?_
  congr 4
  funext w
  cases w <;> rfl

/-- A failure branch: the connection is closed and given up, unless `close` throws. -/
theorem runFrom_dropConn (h : s.conn = true) (o : ConnectAnswers) :
    ∃ r, runFrom (do dropConn o; pure false : ClientM Bool) s =
      some (r, { s with conn := o.close = .throws }) := by
  have hclose : runFrom (dropConn o) s = match o.close with
      | .returns _ => some (.ok (), { s with conn := false })
      | .throws => some (.error (), s) := by
    unfold dropConn useConn
    rw [runFrom_require_bind h]
    cases o.close <;> rfl
  cases hc : o.close with
  | returns ok =>
    rw [hc] at hclose
    exact ⟨_, runFrom_bind_ok hclose⟩
  | throws =>
    rw [hc] at hclose
    have hs : s = { s with conn := decide (Answer.throws = Answer.throws) } := by
      rw [decide_eq_true rfl, ← h]
    exact ⟨.error (), (runFrom_bind_error hclose).trans (by rw [← hs]; rfl)⟩

/-- The state in which `establish` leaves a client. -/
def ConnectAnswers.finish (cfg : Config) (o : ConnectAnswers) (s : Client) : Client :=
  if o.loggedIn then
    match o.schema cfg with
    | .returns true =>
      if o.allWriters then { s with connected := true, writers := fun _ => true }
      else { s with conn := o.close = .throws, writers := fun _ => false }
    | .returns false => { s with conn := o.close = .throws }
    | .throws => s
  else s

/-- The last part of `establish`. -/
theorem runFrom_writers (h : s.conn = true) (o : ConnectAnswers) :
    ∃ r, runFrom (do
        if ← initWriters o then
          setConnected true
          pure true
        else
          dropConn o
          pure false : ClientM Bool) s = some (r, if o.allWriters then
        { s with connected := true, writers := fun _ => true }
      else { s with conn := o.close = .throws, writers := fun _ => false }) := by
  rw [runFrom_bind_ok (runFrom_initWriters o s)]
  cases o.allWriters with
  | true => exact ⟨_, rfl⟩
  | false =>
    exact runFrom_dropConn (s := { s with writers := fun _ => false }) h o

/-- `establish` from the schema on. -/
theorem runFrom_schema (h : s.conn = true) (cfg : Config) (o : ConnectAnswers) :
    ∃ r, runFrom (do
        if ← (if cfg.autoInitSchema then initSchema o else pure true) then
          if ← initWriters o then
            setConnected true
            pure true
          else
            dropConn o
            pure false
        else
          dropConn o
          pure false : ClientM Bool) s = some (r, match o.schema cfg with
        | .returns true =>
          if o.allWriters then { s with connected := true, writers := fun _ => true }
          else { s with conn := o.close = .throws, writers := fun _ => false }
        | .returns false => { s with conn := o.close = .throws }
        | .throws => s) := by
  have hschema : runFrom (if cfg.autoInitSchema then initSchema o else pure true) s =
      runFrom (answer (o.schema cfg)) s := by
    unfold ConnectAnswers.schema initSchema
    split
    · rw [runFrom_bind_ok (runFrom_get s), if_pos h]
    · rfl
  cases hans : o.schema cfg with
  | throws =>
    rw [hans] at hschema
    exact ⟨_, runFrom_bind_error hschema⟩
  | returns ok =>
    rw [hans] at hschema
    rw [runFrom_bind_ok (a := ok) (t := s) hschema]
    cases ok with
    | false => exact runFrom_dropConn h o
    | true => exact runFrom_writers h o

/-- With a connection object, `establish` does not go wrong and lets no exception out. -/
theorem runFrom_establish (h : s.conn = true) (cfg : Config) (o : ConnectAnswers) :
    ∃ ok, runFrom (establish cfg o) s = some (.ok ok, o.finish cfg s) := by
  have hcatch : ∀ {m : ClientM Bool} {t}, (∃ r, runFrom m s = some (r, t)) →
      ∃ ok, runFrom (tryCatch m fun _ => pure false) s = some (.ok ok, t) := by
    rintro m t ⟨r, hr⟩
    cases r with
    | ok ok => exact ⟨ok, runFrom_tryCatch_ok hr⟩
    | error e => exact ⟨false, runFrom_tryCatch_error hr⟩
  unfold establish
  apply hcatch
  unfold useConn ConnectAnswers.finish ConnectAnswers.loggedIn
  rw [runFrom_require_bind h]
  cases o.connect with
  | throws => exact ⟨_, runFrom_bind_error rfl⟩
  | returns ok =>
    rw [runFrom_bind_ok (a := ok) (t := s) rfl]
    cases ok with
    | false => exact ⟨_, rfl⟩
    | true =>
      rw [if_pos rfl, runFrom_require_bind h]
      cases o.login with
      | throws => exact ⟨_, runFrom_bind_error rfl⟩
      | returns ok =>
        rw [runFrom_bind_ok (a := ok) (t := s) rfl]
        exact runFrom_schema h cfg o

/-- Without a connection object, `Connect` uses the null pointer. -/
theorem runFrom_connect_wrong (h : s.conn = false) (cfg : Config) (o : ConnectAnswers) :
    runFrom (connect cfg o) s = none := by
  unfold connect establish useConn
  rw [runFrom_tryCatch, runFrom_require_wrong h]
  rfl

theorem inStep_of_not_connected (h : s.connected = false) : InStep s :=
  fun hc => Bool.noConfusion (h.symm.trans hc)

theorem inStep_finish_iff (hs : InStep s) (h : s.conn = true) :
    InStep (o.finish cfg s) ↔ (s.connected = true → o.givesUp cfg = false) := by
  unfold ConnectAnswers.finish ConnectAnswers.givesUp
  cases o.loggedIn with
  | false => simpa using hs
  | true =>
    rw [if_pos rfl, Bool.true_and]
    -- a connected client keeps what it has exactly when nothing is reset
    match o.schema cfg with
    | .throws => simpa using hs
    | .returns false =>
      have hreset : InStep { s with conn := decide (o.close = .throws) } ↔
          (s.connected = true → o.close = .throws) :=
        ⟨fun ht hc => of_decide_eq_true (ht hc).1,
          fun hclose hc => ⟨decide_eq_true (hclose hc), (hs hc).2⟩⟩
      simpa using hreset
    | .returns true =>
      cases o.allWriters with
      | true => simp [InStep, h]
      | false =>
        have hreset : ¬ (s.connected = true) ↔
            InStep { s with conn := decide (o.close = .throws), writers := fun _ => false } :=
          ⟨fun hc ht => absurd ht hc, fun ht hc => Bool.noConfusion ((ht hc).2 .trades)⟩
        simpa using hreset.symm

/-! ## The calls -/

theorem runFrom_disconnect (status : Writer → Answer) (close : Answer) (hs : InStep s) :
    runFrom (disconnect status close) s =
      some (.ok (), { conn := false, connected := false, writers := fun _ => false }) := by
  unfold disconnect
  rw [runFrom_bind_ok (runFrom_destroyWriters ..), runFrom_bind_ok (runFrom_get _)]
  cases hconn : s.conn with
  | true =>
    have hcall := runFrom_tryCatch_answer (p := (·.conn))
      (s := { s with conn := true, writers := fun _ => false }) rfl close
    rw [if_pos rfl]
    exact (runFrom_bind_ok hcall).trans rfl
  | false =>
    have hconnected : s.connected = false :=
      Bool.eq_false_iff.mpr fun h => Bool.noConfusion (hconn.symm.trans (hs h).1)
    rw [if_neg Bool.false_ne_true, hconnected]
    rfl

/-- `Reconnect` starts over, whatever state the client is in. -/
theorem runFrom_reconnect (status : Writer → Answer) (close : Answer) (o : ConnectAnswers)
    (s : Client) : runFrom (reconnect cfg status close o) s = runFrom (establish cfg o) {} := by
  have hclose : ∀ s : Client, runFrom (tryCatch (do
      if (← get).conn then
        useConn
        let _ ← answer close) fun _ => pure () : ClientM Unit) s = some (.ok (), s) := by
    intro s
    rw [runFrom_tryCatch, runFrom_bind_ok (runFrom_get s)]
    cases hconn : s.conn with
    | true => exact (runFrom_tryCatch ..).symm.trans (runFrom_tryCatch_answer hconn close)
    | false => rfl
  unfold reconnect
  rw [runFrom_bind_ok (runFrom_destroyWriters ..), runFrom_bind_ok (hclose _)]
  rfl

/-- The pointers may be used. -/
def Ready (s : Client) : Prop := s.conn = true ∧ ∀ w, s.writers w = true

theorem safe_answer (a : Answer) : Safe Ready (answer a) := by
  cases a with
  | returns ok => exact .pure ok
  | throws => exact .throw ()

theorem safe_useConn : Safe Ready useConn := .require fun _ h => h.1

theorem safe_setConnected (c : Bool) : Safe Ready (setConnected c) := .modify fun _ h => h

theorem safe_insertRows (w : Writer) (rows : List Row) : Safe Ready (insertRows w rows) := by
  induction rows with
  | nil => exact .pure true
  | cons row rows ih =>
    have hinsert : Safe Ready (tryCatch (do useWriter w; answer row.insert) fun _ => pure false) :=
      .tryCatch (.bind (.require fun _ h => h.2 w) fun _ => safe_answer row.insert)
        fun _ => .pure false
    unfold insertRows
    split
    · refine .bind hinsert fun ok => ?_
      split
      · exact ih
      · exact .pure false
    · exact .pure false

/-- A part of a call that is behind the test of `connected_`. -/
theorem exists_runFrom_of_connected {α : Type} {m : ClientM α} (hs : InStep s)
    (hc : s.connected = true) (hm : Safe Ready m) :
    ∃ r t, runFrom m s = some (r, t) ∧ InStep t := by
  obtain ⟨r, t, hrun, ht⟩ := hm s (hs hc)
  exact ⟨r, t, hrun, fun _ => ht⟩

theorem safe_isHealthy (elapsedMs : UInt64) (ping : Answer) :
    Safe InStep (isHealthy cfg elapsedMs ping) := by
  have hdown : Safe Ready (do setConnected false; pure false) :=
    .bind (safe_setConnected false) fun _ => .pure false
  intro s hs
  unfold isHealthy
  rw [runFrom_bind_ok (runFrom_get s)]
  split
  next hc =>
    refine exists_runFrom_of_connected hs hc ?_
    split
    · exact .pure true
    · split
      · exact .pure true
      · refine .tryCatch (.bind safe_useConn fun _ => .bind (safe_answer ping) fun ok => ?_)
          fun _ => hdown
        split
        · exact .pure true
        · exact hdown
  next => exact ⟨_, s, rfl, hs⟩

/-- A call that starts with the test of `connected_` and a pointer. -/
theorem safe_of_guard {present : Client → Bool} {m : ClientM Bool} (hm : Safe Ready m) :
    Safe InStep (do
      let s ← get
      if !s.connected || !present s then pure false else m) := by
  intro s hs
  rw [runFrom_bind_ok (runFrom_get s)]
  split
  next => exact ⟨_, s, rfl, hs⟩
  next hc =>
    rw [Bool.or_eq_true, not_or, Bool.not_eq_true', Bool.not_eq_false] at hc
    exact exists_runFrom_of_connected hs hc.1 hm

theorem safe_validateSchema (schema : Answer) : Safe InStep (validateSchema schema) :=
  safe_of_guard (.bind safe_useConn fun _ => safe_answer schema)

theorem safe_tableInsert (w : Writer) (rows : List Row) : Safe InStep (tableInsert w rows) :=
  safe_of_guard (safe_insertRows w rows)

theorem safeConnect_iff (hs : InStep s) :
    SafeConnect cfg s (.connect o) ↔ ∃ t, step cfg s (.connect o) = some t ∧ InStep t := by
  show _ ↔ ∃ t, (runFrom (connect cfg o) s).map (·.2) = some t ∧ InStep t
  cases hconn : s.conn with
  | false =>
    rw [runFrom_connect_wrong hconn]
    refine iff_of_false (fun h => Bool.noConfusion (hconn.symm.trans h.1)) ?_
    rintro ⟨t, ht, -⟩
    cases ht
  | true =>
    obtain ⟨ok, hrun⟩ := runFrom_establish hconn cfg o
    have hstep : (∃ t, (runFrom (connect cfg o) s).map (·.2) = some t ∧ InStep t) ↔
        InStep (o.finish cfg s) := by
      unfold connect
      simp [hrun]
    rw [hstep, inStep_finish_iff hs hconn]
    exact and_iff_right hconn

/-- A call that is safe is a step that keeps the pointers in step. -/
theorem exists_map_of_safe {α : Type} {m : ClientM α} (hs : InStep s) (hm : Safe InStep m) :
    ∃ t, (runFrom m s).map (·.2) = some t ∧ InStep t := by
  obtain ⟨r, t, hrun, ht⟩ := hm s hs
  exact ⟨t, by rw [hrun]; rfl, ht⟩

theorem step_iff (s : Client) (a : Call) (hs : InStep s) :
    SafeConnect cfg s a ↔ ∃ t, step cfg s a = some t ∧ InStep t := by
  cases a with
  | connect o => exact safeConnect_iff hs
  | disconnect status close =>
    refine iff_of_true trivial ⟨⟨false, false, fun _ => false⟩, ?_, inStep_of_not_connected rfl⟩
    show (runFrom (disconnect status close) s).map (·.2) = _
    rw [runFrom_disconnect status close hs]
    rfl
  | reconnect status close o =>
    obtain ⟨ok, hrun⟩ := runFrom_establish (s := {}) rfl cfg o
    have hfresh : InStep {} := inStep_of_not_connected rfl
    have ht : InStep (o.finish cfg {}) :=
      (inStep_finish_iff hfresh rfl).mpr fun h => absurd h Bool.false_ne_true
    refine iff_of_true trivial ⟨o.finish cfg {}, ?_, ht⟩
    show (runFrom (reconnect cfg status close o) s).map (·.2) = _
    rw [runFrom_reconnect, hrun]
    rfl
  | isHealthy elapsedMs ping =>
    exact iff_of_true trivial (exists_map_of_safe hs (safe_isHealthy elapsedMs ping))
  | validateSchema schema =>
    exact iff_of_true trivial (exists_map_of_safe hs (safe_validateSchema schema))
  | tableInsertTrades batch =>
    exact iff_of_true trivial (exists_map_of_safe hs (safe_tableInsert .trades batch))
  | tableInsertOrderbook event =>
    exact iff_of_true trivial (exists_map_of_safe hs (safe_tableInsert .orderbook [event]))
  | tableInsertBookTicker event =>
    exact iff_of_true trivial (exists_map_of_safe hs (safe_tableInsert .bookTicker [event]))

/-- No call of a sequence uses a null pointer, and the pointers are in step with `connected_` after
every call, exactly when each `Connect` is made with a connection object and, on a connected client,
gives nothing up. -/
theorem neverNull_iff (cfg : Config) (calls : List Call) :
    (∀ bs, bs <+: calls → ∃ s, (machine cfg).exec (machine cfg).init bs = some s ∧ InStep s) ↔
      (machine cfg).Along (SafeConnect cfg) (machine cfg).init calls :=
  (machine cfg).exec_total_iff step_iff (inStep_of_not_connected rfl)

/-- Every call into the library succeeds. -/
def ConnectAnswers.allOk : ConnectAnswers where
  connect := .returns true
  login := .returns true
  initSchema := .returns true
  writers _ := .returns true
  status _ := .returns true
  close := .returns true

/-- A `Connect` after a `Disconnect` uses the connection that is gone, and one that is made on a
connected client and finds the schema refused leaves `connected_` set without a connection, which
the next ping uses. -/
theorem connect_uses_null :
    (machine {}).exec (machine {}).init
      [.connect .allOk, .disconnect (fun _ => .returns true) (.returns true), .connect .allOk] =
        none ∧
    ((machine {}).exec (machine {}).init
      [.connect .allOk, .connect { ConnectAnswers.allOk with initSchema := .returns false }]).map
        (fun s => (s.connected, s.conn)) = some (true, false) ∧
    (machine {}).exec (machine {}).init
      [.connect .allOk, .connect { ConnectAnswers.allOk with initSchema := .returns false },
        .isHealthy 5000 (.returns true)] = none := by
  refine ⟨rfl, rfl, rfl⟩

end DolphinDBClient

end Sqc
