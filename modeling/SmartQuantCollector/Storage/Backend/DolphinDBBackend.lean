import Mathlib.Data.Fintype.Basic
import SmartQuantCollector.Common.MarketEvent
import SmartQuantCollector.Lib.Machine
import SmartQuantCollector.Storage.TimestampUtil

/-! # `DolphinDBBackend` (`src/storage/backend/dolphindb_backend.cpp`)

The insert path of the DolphinDB storage, with any number of inserting threads: the tick buffer, the
attempt at the database, the reconnect behind its two locks, the fallback to the mmap file, and
`FlushAndClose`, which is called when the inserting threads have stopped. A step of a thread ends at
the next access to something shared.

Of the `MultithreadedTableWriter` the model knows its two queues. A row whose `insert` succeeds is
queued; a queued row is sent, or its send fails and it joins the failed rows; rows that a writer
still has when it is destroyed disappear with it. How long `waitForThreadCompletion` waits is left
open.

Every inserted event gets a number, so that two equal events are told apart; the lists `handed`,
`accepted`, `sent` and `fallback` record what happened to each. -/

namespace Sqc

/-- What the three `Insert*` functions are given. -/
inductive Record where
  | tick (tick : TickData)
  | orderbook (event : DepthUpdateEvent) (localTs : UInt64)
  | bookTicker (event : BookTickerEvent)

namespace Record

def kind : Record → EventKind
  | .tick _ => .tick
  | .orderbook _ _ => .depth
  | .bookTicker _ => .bookTicker

def exchangeTimestamp : Record → UInt64
  | .tick t => t.exchangeTimestamp
  | .orderbook e _ => e.exchangeTimestamp
  | .bookTicker e => e.exchangeTimestamp

def channelId : Record → UInt32
  | .tick t => t.channelId
  | .orderbook e _ => e.channelId
  | .bookTicker e => e.channelId

end Record

structure Item where
  seq : Nat
  record : Record

namespace DolphinDBBackend

structure Config where
  bufferSize : UInt32 := 2000
  flushIntervalNs : UInt64 := 10000000
  /-- The last date that `IsValidTradeDate` accepts. -/
  maxValidDate : Int

def Config.valid (cfg : Config) (r : Record) : Bool :=
  isValidExchangeTimestamp cfg.maxValidDate r.exchangeTimestamp

/-! ## The tick buffer -/

structure TickBuffer where
  a : List Item := []
  b : List Item := []
  /-- `active_buffer_` is 1. -/
  activeB : Bool := false
  lastFlushNs : UInt64 := 0

namespace TickBuffer

def active (buf : TickBuffer) : List Item := if buf.activeB then buf.b else buf.a

def setActive (buf : TickBuffer) (items : List Item) : TickBuffer :=
  if buf.activeB then { buf with b := items } else { buf with a := items }

/-- The section of `InsertTick` under `buffer_mtx_`, with the two readings of the clock. Returns the
batch to flush. -/
def push (cfg : Config) (buf : TickBuffer) (x : Item) (nowNs flushNs : UInt64) :
    TickBuffer × List Item :=
  let active := buf.active ++ [x]
  let thresholdReached := decide (cfg.bufferSize.toNat ≤ active.length)
  let timeElapsed := !thresholdReached && decide (nowNs - buf.lastFlushNs > cfg.flushIntervalNs)
  if thresholdReached || timeElapsed then
    ({ buf.setActive [] with activeB := !buf.activeB, lastFlushNs := flushNs }, active)
  else (buf.setActive active, [])

end TickBuffer

/-! ## The writers and the state -/

structure TableWriter where
  queue : List Item := []
  failed : List Item := []

/-- A call of `InsertWithFallback`. -/
structure Job where
  kind : EventKind
  items : List Item

/-- Trades are not inserted again after a reconnect. -/
def Job.retryAfterReconnect (job : Job) : Bool := job.kind ≠ .tick

/-- The next step of a thread. -/
inductive Thread where
  | idle
  /-- Before the shared lock of phase 1. -/
  | enter (job : Job)
  /-- Inside `try_insert`: the rows accepted so far and the others. -/
  | inserting (kind : EventKind) (retried : Bool) (done todo : List Item)
  | tryReconnect (job : Job)
  /-- Another thread is reconnecting. -/
  | awaiting (job : Job)
  /-- Before the load of `degraded_` after the wait. -/
  | awaited (job : Job)
  /-- Before the exclusive lock. -/
  | locking (job : Job)
  | destroying (job : Job) (left : List EventKind)
  | connecting (job : Job)
  /-- Before the store to `reconnecting_`. -/
  | leaving (job : Job) (ok : Bool)
  | unlocking (job : Job) (ok : Bool)
  /-- Before the shared lock of the second attempt. -/
  | retry (job : Job)
  | fallback (items : List Item)

namespace Thread

def isIdle : Thread → Bool
  | .idle => true
  | _ => false

def holdsShared : Thread → Bool
  | .inserting .. => true
  | _ => false

def holdsExclusive : Thread → Bool
  | .destroying .. | .connecting _ | .leaving .. | .unlocking .. => true
  | _ => false

end Thread

/-- Where `FlushAndClose` is. -/
inductive Closing where
  | running
  | flushing (left : List (List Item))
  | disconnecting (left : List EventKind)
  | closed

def Closing.isRunning : Closing → Bool
  | .running => true
  | _ => false

structure State (ι : Type) where
  writers : EventKind → Option TableWriter
  connected : Bool
  /-- `conn_` is there. -/
  conn : Bool
  degraded : Bool := false
  reconnecting : Bool := false
  buffer : TickBuffer := {}
  threads : ι → Thread := fun _ => .idle
  closing : Closing := .running
  next : Nat := 0
  handed : List Item := []
  accepted : List Item := []
  sent : List Item := []
  fallback : List Item := []

def allKinds : List EventKind := [.tick, .depth, .bookTicker]

variable {ι : Type}

/-- After `Configure`, whose `Connect` may have failed. -/
def State.init (ι : Type) (connected : Bool) : State ι where
  writers _ := if connected then some {} else none
  connected := connected
  conn := true

def State.setWriter (s : State ι) (kind : EventKind) (w : Option TableWriter) : State ι :=
  { s with writers := Function.update s.writers kind w }

/-- What the environment decides when a thread asks it. -/
inductive RowOutcome where
  | queued
  | failed
  | threw
deriving DecidableEq

inductive ReconnectOutcome where
  | recovered
  /-- `connect` or `login` fails. -/
  | unreachable
  /-- `InitSchema` or `InitWriters` fails. -/
  | notInitialized

structure Answer where
  row : RowOutcome := .queued
  /-- The spin limit is reached or shutdown was requested. -/
  giveUp : Bool := false
  reconnect : ReconnectOutcome := .recovered

/-! ## The pieces -/

/-- One row of `TableInsert*`; `none` when the function returns false or throws. The test of the
connection at the head of the function is made again at every row: under the shared lock nobody
changes its outcome. -/
def insertRow (cfg : Config) (s : State ι) (kind : EventKind) (x : Item) (outcome : RowOutcome) :
    Option (State ι) :=
  match s.writers kind with
  | none => none
  | some w =>
    if s.connected && cfg.valid x.record && outcome = .queued then
      some { s.setWriter kind (some { w with queue := w.queue ++ [x] }) with
        accepted := s.accepted ++ [x] }
    else none

/-- `DestroyWriters` on one writer. -/
def destroyWriter (s : State ι) (kind : EventKind) : State ι := s.setWriter kind none

/-- `Reconnect` after the old writers are gone. -/
def connect (s : State ι) : ReconnectOutcome → State ι
  | .recovered =>
    { s with writers := fun _ => some {}, connected := true, conn := true, degraded := false }
  | .unreachable => { s with connected := false, conn := true }
  | .notInitialized => { s with connected := false, conn := false }

def ReconnectOutcome.ok : ReconnectOutcome → Bool
  | .recovered => true
  | _ => false

/-- Phase 2 of `InsertWithFallback` after `TryReconnect`. -/
def afterReconnect (job : Job) (ok : Bool) : Thread :=
  if ok && job.retryAfterReconnect then .retry job else .fallback job.items

/-- `FlushBuffer`. -/
def flushBuffer (cfg : Config) (batch : List Item) : Thread :=
  let validBatch := batch.filter (cfg.valid ·.record)
  if validBatch.isEmpty then .idle else .enter ⟨.tick, validBatch⟩

/-- A writer thread of the library takes up the row at `n`. -/
def takeQueued (s : State ι) (kind : EventKind) (n : Nat) : Option (TableWriter × Item) :=
  (s.writers kind).bind fun w =>
    (w.queue[n]?).map fun x => ({ w with queue := w.queue.eraseIdx n }, x)

/-! ## The steps -/

section Steps

variable [DecidableEq ι]

def State.setThread (s : State ι) (i : ι) (p : Thread) : State ι :=
  { s with threads := Function.update s.threads i p }

/-- `InsertTick`, `InsertOrderbook` and `InsertBookTicker`, up to the first lock of the database. -/
def insert (cfg : Config) (s : State ι) (i : ι) (r : Record) (nowNs flushNs : UInt64) :
    Option (State ι) :=
  if (s.threads i).isIdle && s.closing.isRunning then
    let x : Item := ⟨s.next, r⟩
    let s := { s with next := s.next + 1, handed := s.handed ++ [x] }
    match r with
    | .tick _ =>
      let (buffer, toFlush) := s.buffer.push cfg x nowNs flushNs
      some ({ s with buffer := buffer }.setThread i (flushBuffer cfg toFlush))
    | _ => some (s.setThread i (if cfg.valid r then .enter ⟨r.kind, [x]⟩ else .idle))
  else none

variable [Fintype ι]

/-- The next step of thread `i` inside `InsertWithFallback`. -/
def runThread (cfg : Config) (s : State ι) (i : ι) (answer : Answer) : Option (State ι) :=
  match s.threads i with
  | .idle => none
  | .enter job =>
    if ∃ j, (s.threads j).holdsExclusive = true then none
    else if s.degraded then some (s.setThread i (.tryReconnect job))
    else some (s.setThread i (.inserting job.kind false [] job.items))
  | .inserting _ _ _ [] => some (s.setThread i .idle)
  | .inserting kind retried done (x :: todo) =>
    match insertRow cfg s kind x answer.row with
    | some s => some (s.setThread i (.inserting kind retried (done ++ [x]) todo))
    | none =>
      let job : Job := ⟨kind, done ++ x :: todo⟩
      some ({ s with degraded := true }.setThread i
        (if retried then .fallback job.items else .tryReconnect job))
  | .tryReconnect job =>
    if s.reconnecting then some (s.setThread i (.awaiting job))
    else some ({ s with reconnecting := true }.setThread i (.locking job))
  | .awaiting job =>
    if answer.giveUp then some (s.setThread i (afterReconnect job false))
    else if s.reconnecting then none
    else some (s.setThread i (.awaited job))
  | .awaited job => some (s.setThread i (afterReconnect job (!s.degraded)))
  | .locking job =>
    if ∃ j, (s.threads j).holdsShared = true ∨ (s.threads j).holdsExclusive = true then none
    else some (s.setThread i (.destroying job allKinds))
  | .destroying job (kind :: left) =>
    some ((destroyWriter s kind).setThread i (.destroying job left))
  | .destroying job [] => some (s.setThread i (.connecting job))
  | .connecting job =>
    some ((connect s answer.reconnect).setThread i (.leaving job answer.reconnect.ok))
  | .leaving job ok => some ({ s with reconnecting := false }.setThread i (.unlocking job ok))
  | .unlocking job ok => some (s.setThread i (afterReconnect job ok))
  | .retry job =>
    if ∃ j, (s.threads j).holdsExclusive = true then none
    else if s.degraded then some (s.setThread i (.fallback job.items))
    else some (s.setThread i (.inserting job.kind true [] job.items))
  | .fallback [] => some (s.setThread i .idle)
  | .fallback (x :: todo) =>
    some ({ s with fallback := s.fallback ++ [x] }.setThread i (.fallback todo))

/-- The next step of `FlushAndClose`, which thread `i` runs when the others have stopped. -/
def close (cfg : Config) (s : State ι) (i : ι) : Option (State ι) :=
  if ∃ j, (s.threads j).isIdle = false then none
  else
    match s.closing with
    | .running =>
      some { s with
        buffer := { s.buffer with a := [], b := [] }
        closing := .flushing [s.buffer.a, s.buffer.b] }
    | .flushing (batch :: left) =>
      some ({ s with closing := .flushing left }.setThread i (flushBuffer cfg batch))
    | .flushing [] => some { s with closing := .disconnecting allKinds }
    | .disconnecting (kind :: left) =>
      some { destroyWriter s kind with closing := .disconnecting left }
    | .disconnecting [] =>
      some { s with
        connected := s.connected && !s.conn
        conn := false
        closing := .closed }
    | .closed => none

inductive Action (ι : Type) where
  | insert (i : ι) (record : Record) (nowNs flushNs : UInt64)
  | run (i : ι) (answer : Answer)
  | close (i : ι)
  | send (kind : EventKind) (n : Nat)
  | failSend (kind : EventKind) (n : Nat)

def step (cfg : Config) (s : State ι) : Action ι → Option (State ι)
  | .insert i r nowNs flushNs => DolphinDBBackend.insert cfg s i r nowNs flushNs
  | .run i answer => runThread cfg s i answer
  | .close i => DolphinDBBackend.close cfg s i
  | .send kind n =>
    (takeQueued s kind n).map fun (w, x) =>
      { s.setWriter kind (some w) with sent := s.sent ++ [x] }
  | .failSend kind n =>
    (takeQueued s kind n).map fun (w, x) =>
      s.setWriter kind (some { w with failed := w.failed ++ [x] })

def machine (cfg : Config) (ι : Type) [DecidableEq ι] [Fintype ι] (connected : Bool) :
    Concurrency.Machine (State ι) (Action ι) where
  init := .init ι connected
  step := step cfg

end Steps

end DolphinDBBackend

end Sqc
