import SmartQuantCollector.Lib.Ledger
import SmartQuantCollector.Storage.Backend.DolphinDBBackend

/-! # Where the events are

At any time an event that was handed to the backend is in the tick buffer, with a thread that has
yet to store it, in a batch `FlushAndClose` has taken out, among the rows a writer accepted, or in
the fallback. `held` counts all of these places, and `step_ledger` is the balance of one step. A
step adds the event it inserts, drops events without a valid timestamp, and adds nothing else, with
one exception: when a row of a batch fails, the whole batch goes on, rows that were accepted before
included (`duplicated`). -/

namespace Sqc.DolphinDBBackend

open Concurrency

/-- What the thread has yet to store. -/
def Thread.pending : Thread → List Item
  | .idle => []
  | .enter job | .tryReconnect job | .awaiting job | .awaited job | .locking job
  | .destroying job _ | .connecting job | .leaving job _ | .unlocking job _
  | .retry job => job.items
  | .inserting _ _ _ todo => todo
  | .fallback items => items

def Closing.pending : Closing → List Item
  | .flushing left => left.flatten
  | _ => []

/-- The thread is about to insert a row. -/
def Thread.atRow : Thread → Bool
  | .inserting _ _ _ (_ :: _) => true
  | _ => false

/-- The reconnecting thread has destroyed this writer and not made a new one. -/
def Thread.destroyed : Thread → EventKind → Bool
  | .destroying _ left, kind => kind ∉ left
  | .connecting _, _ => true
  | _, _ => false

variable {ι : Type} {cfg : Config} {s t : State ι} {i : ι}

@[simp] theorem pending_afterReconnect (job : Job) (ok : Bool) :
    (afterReconnect job ok).pending = job.items := by
  unfold afterReconnect
  split <;> rfl

theorem holdsExclusive_afterReconnect (job : Job) (ok : Bool) :
    (afterReconnect job ok).holdsExclusive = false := by
  unfold afterReconnect
  split <;> rfl

theorem holdsExclusive_of_destroyed {p : Thread} {kind : EventKind} (h : p.destroyed kind = true) :
    p.holdsExclusive = true := by
  cases p <;> first | rfl | cases h

/-! ## What a thread can do -/

theorem takeQueued_eq_some {kind : EventKind} {n : Nat} {w : TableWriter} {x : Item}
    (h : takeQueued s kind n = some (w, x)) :
    ∃ v, s.writers kind = some v ∧ v.queue[n]? = some x ∧
      w = { v with queue := v.queue.eraseIdx n } := by
  obtain ⟨v, hv, h⟩ := Option.bind_eq_some_iff.mp h
  obtain ⟨y, hy, heq⟩ := Option.map_eq_some_iff.mp h
  cases heq
  exact ⟨v, hv, hy, rfl⟩

theorem insertRow_eq_some {u : State ι} {kind : EventKind} {x : Item} {outcome : RowOutcome}
    (h : insertRow cfg s kind x outcome = some u) :
    ∃ w, s.writers kind = some w ∧
      u = { s.setWriter kind (some { w with queue := w.queue ++ [x] }) with
        accepted := s.accepted ++ [x] } := by
  unfold insertRow at h
  split at h
  · cases h
  · next w hw =>
    split at h
    · cases h; exact ⟨w, hw, rfl⟩
    · cases h

/-- A thread that does not hold the exclusive lock gets it when nobody else has it. -/
def LockStep (s : State ι) (i : ι) (p : Thread) : Prop :=
  p.holdsExclusive = true →
    ((s.threads i).holdsExclusive = true ∧
      ∀ kind, p.destroyed kind = true → (s.threads i).destroyed kind = true) ∨
    ((∀ j, (s.threads j).holdsExclusive = false) ∧ ∀ kind, p.destroyed kind = false)

theorem LockStep.of_free {p : Thread} (h : p.holdsExclusive = false) : LockStep s i p :=
  fun hp => absurd hp (by rw [h]; exact Bool.false_ne_true)

section RunStep

variable [DecidableEq ι]

/-- The steps of a thread inside `InsertWithFallback`, by what they do to the rows. -/
inductive RunStep (cfg : Config) (s : State ι) (i : ι) (answer : Answer) : State ι → Prop where
  | move (p : Thread) (degraded reconnecting : Bool)
      (pending : p.pending = (s.threads i).pending) (notRow : (s.threads i).atRow = false)
      (lock : LockStep s i p) :
      RunStep cfg s i answer
        ({ s with degraded := degraded, reconnecting := reconnecting }.setThread i p)
  | queued {kind retried done x todo w}
      (thread : s.threads i = .inserting kind retried done (x :: todo))
      (row : (insertRow cfg s kind x answer.row).isNone = false)
      (writer : s.writers kind = some w) :
      RunStep cfg s i answer
        ({ s.setWriter kind (some { w with queue := w.queue ++ [x] }) with
          accepted := s.accepted ++ [x] }.setThread i (.inserting kind retried (done ++ [x]) todo))
  | failed {kind retried done x todo} (p : Thread)
      (thread : s.threads i = .inserting kind retried done (x :: todo))
      (row : (insertRow cfg s kind x answer.row).isNone = true)
      (pending : p.pending = done ++ x :: todo) (lock : p.holdsExclusive = false) :
      RunStep cfg s i answer ({ s with degraded := true }.setThread i p)
  | destroyed {job kind left} (thread : s.threads i = .destroying job (kind :: left)) :
      RunStep cfg s i answer ((destroyWriter s kind).setThread i (.destroying job left))
  | connected {job} (thread : s.threads i = .connecting job) :
      RunStep cfg s i answer
        ((connect s answer.reconnect).setThread i (.leaving job answer.reconnect.ok))
  | appended {x todo} (thread : s.threads i = .fallback (x :: todo)) :
      RunStep cfg s i answer
        ({ s with fallback := s.fallback ++ [x] }.setThread i (.fallback todo))

/-- A thread that is not about to insert a row moves on. -/
theorem RunStep.moveOn {answer : Answer} {q : Thread} (hq : s.threads i = q) {p : Thread}
    (hp : p.pending = q.pending) (hrow : q.atRow = false) (hlock : LockStep s i p) :
    RunStep cfg s i answer (s.setThread i p) :=
  .move p s.degraded s.reconnecting (hq ▸ hp) (hq ▸ hrow) hlock

/-- `TryReconnect` has returned. -/
theorem RunStep.reconnected {answer : Answer} {q : Thread} {job : Job} (hq : s.threads i = q)
    (ok : Bool) (hp : job.items = q.pending) (hrow : q.atRow = false) :
    RunStep cfg s i answer (s.setThread i (afterReconnect job ok)) :=
  .moveOn hq ((pending_afterReconnect job ok).trans hp) hrow
    (.of_free (holdsExclusive_afterReconnect job ok))

variable [Fintype ι]

theorem runStep {answer : Answer} (h : runThread cfg s i answer = some t) :
    RunStep cfg s i answer t := by
  unfold runThread at h
  cases hth : s.threads i with
  | idle => simp only [hth] at h; cases h
  | enter job =>
    simp only [hth, Option.ite_none_left_eq_some] at h
    obtain ⟨-, h⟩ := h
    split at h
    · cases h; exact .moveOn hth rfl rfl (.of_free rfl)
    · cases h; exact .moveOn hth rfl rfl (.of_free rfl)
  | inserting kind retried done todo =>
    cases todo with
    | nil =>
      simp only [hth] at h
      cases h
      exact .moveOn hth rfl rfl (.of_free rfl)
    | cons x todo =>
      simp only [hth] at h
      cases hrow : insertRow cfg s kind x answer.row with
      | some u =>
        rw [hrow] at h
        cases h
        obtain ⟨w, hw, rfl⟩ := insertRow_eq_some hrow
        exact .queued hth (by rw [hrow]; rfl) hw
      | none =>
        rw [hrow] at h
        cases h
        refine .failed _ hth (by rw [hrow]; rfl) ?_ ?_
        · split <;> rfl
        · split <;> rfl
  | tryReconnect job =>
    simp only [hth] at h
    split at h
    · cases h; exact .moveOn hth rfl rfl (.of_free rfl)
    · cases h; exact .move _ s.degraded true (by rw [hth]; rfl) (by rw [hth]; rfl) (.of_free rfl)
  | awaiting job =>
    simp only [hth] at h
    split at h
    · cases h; exact .reconnected hth _ rfl rfl
    · split at h
      · cases h
      · cases h; exact .moveOn hth rfl rfl (.of_free rfl)
  | awaited job =>
    simp only [hth] at h
    cases h; exact .reconnected hth _ rfl rfl
  | locking job =>
    simp only [hth, Option.ite_none_left_eq_some] at h
    obtain ⟨hfree, h⟩ := h
    cases h
    refine .moveOn hth rfl rfl fun _ => .inr ⟨fun j => ?_, fun kind => ?_⟩
    · exact Bool.eq_false_iff.mpr fun hj => hfree ⟨j, .inr hj⟩
    · cases kind <;> rfl
  | destroying job left =>
    cases left with
    | nil =>
      simp only [hth] at h
      cases h
      exact .moveOn hth rfl rfl fun _ => .inl (by rw [hth]; exact ⟨rfl, fun _ _ => rfl⟩)
    | cons kind left =>
      simp only [hth] at h
      cases h; exact .destroyed hth
  | connecting job =>
    simp only [hth] at h
    cases h; exact .connected hth
  | leaving job ok =>
    simp only [hth] at h
    cases h
    exact .move _ s.degraded false (by rw [hth]; rfl) (by rw [hth]; rfl)
      fun _ => .inl (by rw [hth]; exact ⟨rfl, nofun⟩)
  | unlocking job ok =>
    simp only [hth] at h
    cases h; exact .reconnected hth _ rfl rfl
  | retry job =>
    simp only [hth, Option.ite_none_left_eq_some] at h
    obtain ⟨-, h⟩ := h
    split at h
    · cases h; exact .moveOn hth rfl rfl (.of_free rfl)
    · cases h; exact .moveOn hth rfl rfl (.of_free rfl)
  | fallback items =>
    cases items with
    | nil =>
      simp only [hth] at h
      cases h; exact .moveOn hth rfl rfl (.of_free rfl)
    | cons x todo =>
      simp only [hth] at h
      cases h; exact .appended hth

/-- The steps of `FlushAndClose`. -/
inductive CloseStep (cfg : Config) (s : State ι) (i : ι) : State ι → Prop where
  | takeBuffers (closing : s.closing = .running) :
      CloseStep cfg s i { s with
        buffer := { s.buffer with a := [], b := [] }
        closing := .flushing [s.buffer.a, s.buffer.b] }
  | flush {batch left} (closing : s.closing = .flushing (batch :: left)) :
      CloseStep cfg s i
        ({ s with closing := .flushing left }.setThread i (flushBuffer cfg batch))
  | flushed (closing : s.closing = .flushing []) :
      CloseStep cfg s i { s with closing := .disconnecting allKinds }
  | destroyed {kind left} (closing : s.closing = .disconnecting (kind :: left)) :
      CloseStep cfg s i { destroyWriter s kind with closing := .disconnecting left }
  | disconnected (closing : s.closing = .disconnecting []) :
      CloseStep cfg s i { s with
        connected := s.connected && !s.conn
        conn := false
        closing := .closed }

theorem isIdle_iff {p : Thread} : p.isIdle = true ↔ p = .idle := by
  cases p <;> simp [Thread.isIdle]

theorem closeStep (h : DolphinDBBackend.close cfg s i = some t) :
    (∀ j, s.threads j = .idle) ∧ CloseStep cfg s i t := by
  unfold DolphinDBBackend.close at h
  simp only [Option.ite_none_left_eq_some] at h
  obtain ⟨hall, h⟩ := h
  constructor
  · intro j
    by_contra hne
    exact hall ⟨j, Bool.eq_false_iff.mpr fun hj => hne (isIdle_iff.mp hj)⟩
  · cases hcl : s.closing with
    | running => simp only [hcl] at h; cases h; exact .takeBuffers hcl
    | flushing left =>
      cases left with
      | nil => simp only [hcl] at h; cases h; exact .flushed hcl
      | cons batch left => simp only [hcl] at h; cases h; exact .flush hcl
    | disconnecting left =>
      cases left with
      | nil => simp only [hcl] at h; cases h; exact .disconnected hcl
      | cons kind left => simp only [hcl] at h; cases h; exact .destroyed hcl
    | closed => simp only [hcl] at h; cases h

end RunStep

/-! ## The ledger -/

/-- The event that the step inserts. -/
def inserted (s : State ι) : Action ι → List Item
  | .insert _ r _ _ => [⟨s.next, r⟩]
  | _ => []

/-- The accepted rows that the step sends on a second way. -/
def duplicated (cfg : Config) (s : State ι) : Action ι → List Item
  | .run i answer =>
    match s.threads i with
    | .inserting kind _ done (x :: _) =>
      if (insertRow cfg s kind x answer.row).isNone then done else []
    | _ => []
  | _ => []

theorem duplicated_of_not_atRow {answer : Answer} (h : (s.threads i).atRow = false) :
    duplicated cfg s (.run i answer) = [] := by
  rw [duplicated]
  split
  · next hth => rw [hth] at h; cases h
  · rfl

variable [Fintype ι]

def held (s : State ι) : Multiset Item :=
  ↑(s.buffer.a ++ s.buffer.b) + (∑ i, (↑(s.threads i).pending : Multiset Item)) +
    ↑s.closing.pending + ↑s.accepted + ↑s.fallback

/-- The same, with the tick buffer and its batches apart from what the threads do. -/
theorem held_eq (s : State ι) :
    held s = (↑(s.buffer.a ++ s.buffer.b) + ↑s.closing.pending) +
      ((∑ i, (↑(s.threads i).pending : Multiset Item)) + ↑s.accepted + ↑s.fallback) := by
  unfold held
  abel

theorem held_init (connected : Bool) : held (.init ι connected) = 0 := by
  simp [held, State.init, Thread.pending, Closing.pending]

/-! ## Moves of a thread -/

/-- `FlushBuffer` drops what has no valid timestamp. -/
theorem pending_flushBuffer (cfg : Config) (batch : List Item) :
    (flushBuffer cfg batch).pending = batch.filter (cfg.valid ·.record) := by
  unfold flushBuffer
  dsimp only
  split
  · next h => exact (List.isEmpty_iff.mp h).symm
  · rfl

theorem filter_add_filter_not (cfg : Config) (batch : List Item) :
    (↑(batch.filter (cfg.valid ·.record)) : Multiset Item) +
      ↑(batch.filter (!cfg.valid ·.record)) = ↑batch := by
  rw [Multiset.coe_add, Multiset.coe_eq_coe]
  exact List.filter_append_perm _ batch

theorem setActive_ledger (buf : TickBuffer) (items : List Item) :
    (↑((buf.setActive items).a ++ (buf.setActive items).b) : Multiset Item) + ↑buf.active =
      ↑(buf.a ++ buf.b) + ↑items := by
  unfold TickBuffer.setActive TickBuffer.active
  split
  · simp only [← Multiset.coe_add]
    abel
  · simp only [← Multiset.coe_add]
    abel

theorem push_ledger (cfg : Config) (buf : TickBuffer) (x : Item) (nowNs flushNs : UInt64) :
    (↑((buf.push cfg x nowNs flushNs).1.a ++ (buf.push cfg x nowNs flushNs).1.b) : Multiset Item) +
      ↑(buf.push cfg x nowNs flushNs).2 = ↑(buf.a ++ buf.b) + ↑[x] := by
  unfold TickBuffer.push
  dsimp only
  split
  · have h := setActive_ledger buf []
    rw [Multiset.coe_nil, add_zero] at h
    dsimp only
    rw [← Multiset.coe_add buf.active, ← add_assoc, h]
  · have h := setActive_ledger buf (buf.active ++ [x])
    apply add_right_cancel (b := (↑buf.active : Multiset Item))
    dsimp only
    rw [Multiset.coe_nil, add_zero, h, ← Multiset.coe_add buf.active]
    abel

variable [DecidableEq ι]

/-- The balance of a state change, place by place. -/
theorem held_update {p : Thread} {acc fb : List Item} {gain loss : Multiset Item}
    (hthreads : t.threads = Function.update s.threads i p) (hacc : t.accepted = s.accepted ++ acc)
    (hfb : t.fallback = s.fallback ++ fb)
    (h : (↑(t.buffer.a ++ t.buffer.b) : Multiset Item) + ↑p.pending + ↑t.closing.pending +
        ↑acc + ↑fb + loss =
      ↑(s.buffer.a ++ s.buffer.b) + ↑(s.threads i).pending + ↑s.closing.pending + gain) :
    held t + loss = held s + gain := by
  classical
  have hsum := sum_update_add (fun p : Thread => (↑p.pending : Multiset Item)) s.threads i p
  unfold held
  rw [hthreads, hacc, hfb]
  ext x
  have hsum := congrArg (Multiset.count x) hsum
  have h := congrArg (Multiset.count x) h
  simp only [← Multiset.coe_add, Multiset.count_add] at hsum h ⊢
  omega

/-- A step of thread `i` that accepts the rows `acc` and appends `fb` to the fallback. -/
theorem held_thread {p : Thread} {acc fb : List Item} {gain : Multiset Item}
    (hthreads : t.threads = Function.update s.threads i p) (hbuffer : t.buffer = s.buffer)
    (hclosing : t.closing = s.closing) (hacc : t.accepted = s.accepted ++ acc)
    (hfb : t.fallback = s.fallback ++ fb)
    (hp : (↑p.pending : Multiset Item) + ↑acc + ↑fb = ↑(s.threads i).pending + gain) :
    held t = held s + gain := by
  rw [← add_zero (held t)]
  refine held_update hthreads hacc hfb ?_
  calc (↑(t.buffer.a ++ t.buffer.b) : Multiset Item) + ↑p.pending + ↑t.closing.pending + ↑acc +
        ↑fb + 0
      = ↑(t.buffer.a ++ t.buffer.b) + ↑t.closing.pending + (↑p.pending + ↑acc + ↑fb) := by abel
    _ = _ := by rw [hp, hbuffer, hclosing]; abel

/-- A step of thread `i` that stores nothing. -/
theorem held_moveOn {p : Thread} {gain : Multiset Item}
    (hthreads : t.threads = Function.update s.threads i p) (hbuffer : t.buffer = s.buffer)
    (hclosing : t.closing = s.closing) (hacc : t.accepted = s.accepted)
    (hfb : t.fallback = s.fallback)
    (hp : (↑p.pending : Multiset Item) = ↑(s.threads i).pending + gain) :
    held t = held s + gain :=
  held_thread hthreads hbuffer hclosing (hacc.trans (List.append_nil _).symm)
    (hfb.trans (List.append_nil _).symm) (by rw [hp, Multiset.coe_nil, add_zero, add_zero])

/-! ## The balance of a step -/

theorem RunStep.ledger {answer : Answer} (h : RunStep cfg s i answer t) :
    held t = held s + ↑(duplicated cfg s (.run i answer)) := by
  cases h with
  | move p _ _ hp hrow _ =>
    refine held_moveOn rfl rfl rfl rfl rfl ?_
    rw [duplicated_of_not_atRow hrow, hp, Multiset.coe_nil, add_zero]
  | @queued kind retried done x todo w hth hrow hw =>
    refine held_thread rfl rfl rfl rfl (List.append_nil _).symm ?_
    rw [duplicated, hth]
    simp only [hrow, Bool.false_eq_true, if_false, Thread.pending, Multiset.coe_nil, add_zero,
      Multiset.coe_add, Multiset.coe_eq_coe]
    exact List.perm_append_singleton x todo
  | @failed kind retried done x todo p hth hrow hp _ =>
    refine held_moveOn rfl rfl rfl rfl rfl ?_
    rw [duplicated, hth, hp]
    simp only [hrow, if_true, Thread.pending, Multiset.coe_add, Multiset.coe_eq_coe]
    exact List.perm_append_comm
  | destroyed hth =>
    refine held_moveOn rfl rfl rfl rfl rfl ?_
    rw [duplicated_of_not_atRow (by rw [hth]; rfl), hth, Multiset.coe_nil, add_zero]; rfl
  | connected hth =>
    have hdup : duplicated cfg s (.run i answer) = [] :=
      duplicated_of_not_atRow (by rw [hth]; rfl)
    cases answer.reconnect with
    | _ =>
      refine held_moveOn rfl rfl rfl rfl rfl ?_
      rw [hdup, hth, Multiset.coe_nil, add_zero]; rfl
  | appended hth =>
    refine held_thread rfl rfl rfl (List.append_nil _).symm rfl ?_
    rw [duplicated_of_not_atRow (by rw [hth]; rfl), hth]
    simp only [Thread.pending, Multiset.coe_nil, add_zero, Multiset.coe_add, Multiset.coe_eq_coe]
    exact List.perm_append_singleton _ _

/-- A batch that is flushed stays, except for the events without a valid timestamp. -/
theorem flushBuffer_ledger (cfg : Config) (batch : List Item) :
    (↑(flushBuffer cfg batch).pending : Multiset Item) +
      ↑(batch.filter (!cfg.valid ·.record)) = ↑batch := by
  rw [pending_flushBuffer, filter_add_filter_not]

/-- Events without a valid timestamp. -/
def Dropped (cfg : Config) (items : List Item) : Prop :=
  ∀ x ∈ items, cfg.valid x.record = false

theorem dropped_filter (cfg : Config) (batch : List Item) :
    Dropped cfg (batch.filter (!cfg.valid ·.record)) := fun x hx => by
  simpa using List.of_mem_filter hx

/-- An idle thread takes a batch out of the buffer or from `FlushAndClose`. -/
theorem held_flush {batch : List Item} {gain : Multiset Item} (hidle : s.threads i = .idle)
    (hthreads : t.threads = Function.update s.threads i (flushBuffer cfg batch))
    (hacc : t.accepted = s.accepted) (hfb : t.fallback = s.fallback)
    (h : (↑(t.buffer.a ++ t.buffer.b) : Multiset Item) + ↑batch + ↑t.closing.pending =
      ↑(s.buffer.a ++ s.buffer.b) + ↑s.closing.pending + gain) :
    ∃ loss, Dropped cfg loss ∧ held t + ↑loss = held s + gain := by
  refine ⟨batch.filter (!cfg.valid ·.record), dropped_filter cfg batch, ?_⟩
  apply held_update hthreads (hacc.trans (List.append_nil _).symm)
    (hfb.trans (List.append_nil _).symm)
  have hnone : (s.threads i).pending = [] := by rw [hidle]; rfl
  rw [hnone, Multiset.coe_nil]
  simp only [add_zero]
  rw [← h, ← flushBuffer_ledger cfg batch]
  abel

theorem insert_ledger {r : Record} {nowNs flushNs : UInt64}
    (h : DolphinDBBackend.insert cfg s i r nowNs flushNs = some t) :
    ∃ loss, Dropped cfg loss ∧ held t + ↑loss = held s + ↑[(⟨s.next, r⟩ : Item)] := by
  unfold DolphinDBBackend.insert at h
  simp only [Option.ite_none_right_eq_some, Bool.and_eq_true] at h
  obtain ⟨⟨hidle, -⟩, h⟩ := h
  rw [isIdle_iff] at hidle
  -- The events that are not buffered are stored at once or dropped.
  have hdirect : t = ({ s with
        next := s.next + 1
        handed := s.handed ++ [⟨s.next, r⟩] } : State ι).setThread i
          (if cfg.valid r then .enter ⟨r.kind, [⟨s.next, r⟩]⟩ else .idle) →
      ∃ loss, Dropped cfg loss ∧ held t + ↑loss = held s + ↑[(⟨s.next, r⟩ : Item)] := by
    rintro rfl
    cases hv : cfg.valid r with
    | true =>
      refine ⟨[], nofun, ?_⟩
      rw [Multiset.coe_nil, add_zero]
      exact held_moveOn rfl rfl rfl rfl rfl (by rw [hidle]; rfl)
    | false =>
      refine ⟨[⟨s.next, r⟩], fun x hx => by rw [List.mem_singleton.mp hx]; exact hv, ?_⟩
      congr 1
      rw [← add_zero (held s)]
      exact held_moveOn rfl rfl rfl rfl rfl (by rw [hidle]; rfl)
  cases r with
  | tick tick =>
    cases h
    refine held_flush hidle rfl rfl rfl ?_
    have hpush := push_ledger cfg s.buffer ⟨s.next, .tick tick⟩ nowNs flushNs
    refine (congrArg (· + (↑s.closing.pending : Multiset Item)) hpush).trans ?_
    exact add_right_comm _ _ _
  | orderbook event localTs => exact hdirect (Option.some.inj h).symm
  | bookTicker event => exact hdirect (Option.some.inj h).symm

theorem close_ledger (h : DolphinDBBackend.close cfg s i = some t) :
    ∃ loss, Dropped cfg loss ∧ held t + ↑loss = held s := by
  obtain ⟨hidle, h⟩ := closeStep h
  -- The steps that move nothing between the threads.
  have hsame : ∀ {t : State ι}, t.threads = s.threads → t.accepted = s.accepted →
      t.fallback = s.fallback →
      (↑(t.buffer.a ++ t.buffer.b) : Multiset Item) + ↑t.closing.pending =
        ↑(s.buffer.a ++ s.buffer.b) + ↑s.closing.pending →
      ∃ loss, Dropped cfg loss ∧ held t + ↑loss = held s := by
    intro t hth hacc hfb hb
    refine ⟨[], nofun, ?_⟩
    rw [Multiset.coe_nil, add_zero, held_eq, held_eq s, hth, hacc, hfb, hb]
  cases h with
  | takeBuffers hcl =>
    refine hsame rfl rfl rfl ?_
    rw [hcl]
    simp [Closing.pending]
  | flush hcl =>
    rw [← add_zero (held s)]
    refine held_flush (hidle i) rfl rfl rfl ?_
    rw [hcl, add_zero]
    simp only [Closing.pending, List.flatten_cons, ← Multiset.coe_add]
    exact add_assoc _ _ _
  | flushed hcl =>
    refine hsame rfl rfl rfl ?_
    rw [hcl]; rfl
  | destroyed hcl =>
    refine hsame rfl rfl rfl ?_
    rw [hcl]; rfl
  | disconnected hcl =>
    refine hsame rfl rfl rfl ?_
    rw [hcl]; rfl

/-- The balance of a step: what it inserts and what it duplicates come in, what has no valid
timestamp may go. -/
theorem step_ledger {a : Action ι} (h : step cfg s a = some t) :
    ∃ loss, Dropped cfg loss ∧
      held t + ↑loss = held s + ↑(inserted s a) + ↑(duplicated cfg s a) := by
  cases a with
  | insert i r nowNs flushNs =>
    obtain ⟨loss, hloss, hbal⟩ := insert_ledger h
    refine ⟨loss, hloss, ?_⟩
    simpa only [inserted, duplicated, Multiset.coe_nil, add_zero] using hbal
  | run i answer =>
    refine ⟨[], nofun, ?_⟩
    simpa only [inserted, Multiset.coe_nil, add_zero] using (runStep h).ledger
  | close i =>
    obtain ⟨loss, hloss, hbal⟩ := close_ledger h
    refine ⟨loss, hloss, ?_⟩
    simpa only [inserted, duplicated, Multiset.coe_nil, add_zero] using hbal
  | send kind n =>
    obtain ⟨⟨w, x⟩, -, rfl⟩ := Option.map_eq_some_iff.mp h
    refine ⟨[], nofun, ?_⟩
    simp only [inserted, duplicated, Multiset.coe_nil, add_zero]
    rfl
  | failSend kind n =>
    obtain ⟨⟨w, x⟩, -, rfl⟩ := Option.map_eq_some_iff.mp h
    refine ⟨[], nofun, ?_⟩
    simp only [inserted, duplicated, Multiset.coe_nil, add_zero]
    rfl

/-- Only an insertion hands over an event. -/
theorem step_handed {a : Action ι} (h : step cfg s a = some t) :
    t.handed = s.handed ++ inserted s a ∧ t.next = s.next + (inserted s a).length := by
  cases a with
  | insert i r nowNs flushNs =>
    simp only [step, DolphinDBBackend.insert, Option.ite_none_right_eq_some] at h
    obtain ⟨-, h⟩ := h
    cases r with
    | _ => cases h; exact ⟨rfl, rfl⟩
  | run i answer =>
    simp only [inserted, List.append_nil]
    cases runStep h with
    | connected => cases answer.reconnect <;> exact ⟨rfl, rfl⟩
    | _ => exact ⟨rfl, rfl⟩
  | close i =>
    simp only [inserted, List.append_nil]
    cases (closeStep h).2 <;> exact ⟨rfl, rfl⟩
  | send kind n =>
    obtain ⟨⟨w, x⟩, -, rfl⟩ := Option.map_eq_some_iff.mp h
    exact ⟨(List.append_nil _).symm, rfl⟩
  | failSend kind n =>
    obtain ⟨⟨w, x⟩, -, rfl⟩ := Option.map_eq_some_iff.mp h
    exact ⟨(List.append_nil _).symm, rfl⟩

end Sqc.DolphinDBBackend
