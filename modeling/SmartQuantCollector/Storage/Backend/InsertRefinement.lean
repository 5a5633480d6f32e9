import SmartQuantCollector.Storage.Backend.DolphinDBLedger
import SmartQuantCollector.Storage.Backend.InsertWithFallback

/-! # The backend follows `InsertWithFallback`

The calls of `InsertWithFallback` that the backend makes are a batch of trades, an order book or a
book ticker. Every run of the backend, with its writers and its connection, is matched by a run of
the template in which `try_insert` and `Reconnect` answer what they come to in the backend
(`exec_refines`). A batch of trades may be stored in part when its attempt fails; order books and
book tickers are in the rows of the writers and in the fallback as the calls of the template are. -/

namespace Sqc.DolphinDBBackend

open Concurrency
open InsertWithFallback (Call)

/-- The jobs that `FlushBuffer`, `InsertOrderbook` and `InsertBookTicker` make. -/
structure Job.Made (job : Job) : Prop where
  nonempty : job.items ≠ []
  kind : ∀ x ∈ job.items, x.record.kind = job.kind
  single : job.kind ≠ .tick → job.items.length = 1

/-- Where a thread of the template is when a thread of the backend is at `p`. -/
inductive Follows : Thread → InsertWithFallback.Thread Job → Prop where
  | idle : Follows .idle .idle
  | enter {c : Call Job} (made : c.event.Made) : Follows (.enter c.event) (.enter c false)
  | inserting {c : Call Job} {kind retried done x todo} (made : c.event.Made)
      (job : c.event = ⟨kind, done ++ x :: todo⟩) :
      Follows (.inserting kind retried done (x :: todo)) (.inserting c retried)
  | inserted {c : Call Job} {kind retried done} :
      Follows (.inserting kind retried done []) (.stored c)
  | tryReconnect {c : Call Job} (made : c.event.Made) :
      Follows (.tryReconnect c.event) (.tryReconnect c)
  | awaiting {c : Call Job} (made : c.event.Made) : Follows (.awaiting c.event) (.awaiting c)
  | awaited {c : Call Job} (made : c.event.Made) : Follows (.awaited c.event) (.awaited c)
  | locking {c : Call Job} (made : c.event.Made) : Follows (.locking c.event) (.locking c)
  | destroying {c : Call Job} {left} (made : c.event.Made) :
      Follows (.destroying c.event left) (.reconnecting c)
  | connecting {c : Call Job} (made : c.event.Made) :
      Follows (.connecting c.event) (.reconnecting c)
  | leaving {c : Call Job} {ok} (made : c.event.Made) :
      Follows (.leaving c.event ok) (.leaving c ok)
  | unlocking {c : Call Job} {ok} (made : c.event.Made) :
      Follows (.unlocking c.event ok) (.unlocking c ok)
  | retry {c : Call Job} (made : c.event.Made) : Follows (.retry c.event) (.enter c true)
  | fallback {c : Call Job} {x todo} (made : c.event.Made)
      (todo_suffix : x :: todo <:+ c.event.items) : Follows (.fallback (x :: todo)) (.fallback c)
  | written {c : Call Job} : Follows (.fallback []) (.written c)

/-- The order books and book tickers. -/
def books (items : List Item) : List Item := items.filter (·.record.kind ≠ .tick)

def booksOf (calls : List (Call Job)) : List Item := books (calls.flatMap (·.event.items))

variable {ι : Type} {cfg : Config} {s t : State ι} {i : ι}
  {u v : InsertWithFallback.State ι Job}

structure Refines (s : State ι) (u : InsertWithFallback.State ι Job) : Prop where
  degraded : u.degraded = s.degraded
  reconnecting : u.reconnecting = s.reconnecting
  threads : ∀ i, Follows (s.threads i) (u.threads i)
  stored : booksOf u.stored = books s.accepted
  fallback : booksOf u.fallback = books s.fallback
  /-- Only trades are buffered. -/
  buffered : ∀ x ∈ s.buffer.a ++ s.buffer.b ++ s.closing.pending, x.record.kind = .tick

/-! ## The places of a thread -/

theorem Follows.holdsShared {p : Thread} {q : InsertWithFallback.Thread Job} (h : Follows p q) :
    q.holdsShared = p.holdsShared := by
  cases h <;> rfl

theorem Follows.holdsExclusive {p : Thread} {q : InsertWithFallback.Thread Job} (h : Follows p q) :
    q.holdsExclusive = p.holdsExclusive := by
  cases h <;> rfl

theorem Follows.startFallback {c : Call Job} (h : c.event.Made) :
    Follows (.fallback c.event.items) (.fallback c) := by
  obtain ⟨x, todo, heq⟩ := List.exists_cons_of_ne_nil h.nonempty
  rw [heq]
  exact .fallback h (heq ▸ List.suffix_refl _)

theorem Follows.afterReconnect {c : Call Job} (h : c.event.Made) (ok : Bool) :
    Follows (afterReconnect c.event ok)
      (InsertWithFallback.afterReconnect Job.retryAfterReconnect c ok) := by
  unfold DolphinDBBackend.afterReconnect InsertWithFallback.afterReconnect
  split
  · exact .retry h
  · exact .startFallback h

theorem Follows.afterAttempt {c : Call Job} (h : c.event.Made) (retried : Bool) :
    Follows (if retried then .fallback c.event.items else .tryReconnect c.event)
      (InsertWithFallback.afterAttempt c retried) := by
  cases retried with
  | false => exact .tryReconnect h
  | true => exact .startFallback h

theorem flushBuffer_of_isEmpty {batch : List Item}
    (h : (batch.filter (cfg.valid ·.record)).isEmpty = true) :
    flushBuffer cfg batch = .idle := by
  unfold flushBuffer
  exact if_pos h

theorem Job.Made.flush {batch : List Item}
    (h : (batch.filter (cfg.valid ·.record)).isEmpty = false)
    (hticks : ∀ x ∈ batch, x.record.kind = .tick) :
    Job.Made ⟨.tick, batch.filter (cfg.valid ·.record)⟩ where
  nonempty hnil := by
    have hempty := List.isEmpty_iff.mpr hnil
    exact Bool.noConfusion (h.symm.trans hempty)
  kind x hx := hticks x (List.mem_of_mem_filter hx)
  single hne := absurd rfl hne

theorem books_of_tick {items : List Item} (h : ∀ x ∈ items, x.record.kind = .tick) :
    books items = [] := by
  unfold books
  rw [List.filter_eq_nil_iff]
  intro x hx
  simp [h x hx]

theorem books_append (xs ys : List Item) : books (xs ++ ys) = books xs ++ books ys :=
  List.filter_append ..

theorem booksOf_append (calls : List (Call Job)) (c : Call Job) :
    booksOf (calls ++ [c]) = booksOf calls ++ books c.event.items := by
  unfold booksOf
  rw [List.flatMap_append, books_append, List.flatMap_singleton]

/-- The last row of a job: for an order book or a book ticker it is the whole job. -/
theorem Job.Made.books_last {job : Job} {done : List Item} {x : Item} (h : job.Made)
    (hitems : job.items = done ++ [x]) : books job.items = books [x] := by
  by_cases hk : job.kind = .tick
  · have hx : x ∈ job.items := hitems ▸ List.mem_append_right _ (List.mem_singleton_self x)
    rw [books_of_tick fun y hy => (h.kind y hy).trans hk,
      books_of_tick fun y hy => by rw [List.mem_singleton.mp hy]; exact (h.kind x hx).trans hk]
  · have hlen := h.single hk
    rw [hitems, List.length_append, List.length_singleton] at hlen
    have hnil : done = [] := List.length_eq_zero_iff.mp (by omega)
    rw [hitems, hnil]
    rfl

/-- A row that is not the last one is a trade. -/
theorem Job.Made.books_inner {job : Job} {done todo : List Item} {x y : Item} (h : job.Made)
    (hitems : job.items = done ++ x :: y :: todo) : books [x] = [] := by
  have hk : job.kind = .tick := by
    by_contra hk
    have hlen := h.single hk
    rw [hitems, List.length_append, List.length_cons, List.length_cons] at hlen
    omega
  have hx : x ∈ job.items := hitems ▸ List.mem_append_right _ List.mem_cons_self
  exact books_of_tick fun z hz => by rw [List.mem_singleton.mp hz]; exact (h.kind x hx).trans hk

/-! ## Runs of the template -/

section Template

variable [DecidableEq ι] [Fintype ι] {c : Call Job} {retried : Bool}

/-- The template as the backend uses it. -/
abbrev template (ι : Type) [DecidableEq ι] [Fintype ι] :=
  InsertWithFallback.machine ι Job Job.retryAfterReconnect

theorem exec_enter_degraded (hth : u.threads i = .enter c retried)
    (hfree : ∀ j, (u.threads j).holdsExclusive = false) (hdegraded : u.degraded = true) :
    (template ι).exec u [.run i {}, .run i {}, .run i {}] =
      some (u.setThread i (InsertWithFallback.afterAttempt c retried)) := by
  simp [Machine.exec, InsertWithFallback.machine, InsertWithFallback.run, hth, hfree, hdegraded]

theorem exec_enter (hth : u.threads i = .enter c retried)
    (hfree : ∀ j, (u.threads j).holdsExclusive = false) (hdegraded : u.degraded = false) :
    (template ι).exec u [.run i {}, .run i {}] = some (u.setThread i (.inserting c retried)) := by
  simp [Machine.exec, InsertWithFallback.machine, InsertWithFallback.run, hth, hfree, hdegraded]

theorem exec_refused (hth : u.threads i = .inserting c retried) :
    (template ι).exec u [.run i { attempt := .refuses }, .run i {}, .run i {}] =
      some ({ u with degraded := true }.setThread i
        (InsertWithFallback.afterAttempt c retried)) := by
  simp [Machine.exec, InsertWithFallback.machine, InsertWithFallback.run, hth]

theorem exec_recovered (hth : u.threads i = .reconnecting c) :
    (template ι).exec u [.run i {}, .run i {}] =
      some ({ u with degraded := false }.setThread i (.leaving c true)) := by
  simp [Machine.exec, InsertWithFallback.machine, InsertWithFallback.run, hth]

end Template

/-! ## Steps that are matched -/

/-- Both sides set `degraded_`. -/
theorem Refines.setDegraded (h : Refines s u) (b : Bool) :
    Refines { s with degraded := b } { u with degraded := b } :=
  ⟨rfl, h.reconnecting, h.threads, h.stored, h.fallback, h.buffered⟩

theorem Refines.setReconnecting (h : Refines s u) (b : Bool) :
    Refines { s with reconnecting := b } { u with reconnecting := b } :=
  ⟨h.degraded, rfl, h.threads, h.stored, h.fallback, h.buffered⟩

theorem Refines.destroyWriter (h : Refines s u) (kind : EventKind) :
    Refines (destroyWriter s kind) u :=
  ⟨h.degraded, h.reconnecting, h.threads, h.stored, h.fallback, h.buffered⟩

/-- The rows that a writer accepts, when the template has stored the call `stored`. -/
theorem Refines.accept {w : Option TableWriter} {kind : EventKind} {x : Item}
    {stored : List (Call Job)} (h : Refines s u)
    (hbooks : booksOf stored = books s.accepted ++ books [x]) :
    Refines { s.setWriter kind w with accepted := s.accepted ++ [x] }
      { u with stored := stored } :=
  ⟨h.degraded, h.reconnecting, h.threads, hbooks.trans (books_append ..).symm, h.fallback,
    h.buffered⟩

theorem Refines.append {x : Item} {fallback : List (Call Job)} (h : Refines s u)
    (hbooks : booksOf fallback = books s.fallback ++ books [x]) :
    Refines { s with fallback := s.fallback ++ [x] } { u with fallback := fallback } :=
  ⟨h.degraded, h.reconnecting, h.threads, h.stored, hbooks.trans (books_append ..).symm,
    h.buffered⟩

theorem Refines.return (h : Refines s u) (returned : List (Call Job)) :
    Refines s { u with returned := returned } :=
  ⟨h.degraded, h.reconnecting, h.threads, h.stored, h.fallback, h.buffered⟩

theorem Refines.free (h : Refines s u) (hfree : ¬ ∃ j, (s.threads j).holdsExclusive = true)
    (j : ι) : (u.threads j).holdsExclusive = false := by
  rw [(h.threads j).holdsExclusive]
  exact Bool.eq_false_iff.mpr fun hj => hfree ⟨j, hj⟩

theorem Refines.idle (h : Refines s u) (hidle : s.threads i = .idle) : u.threads i = .idle := by
  have hf := h.threads i
  rw [hidle] at hf
  generalize u.threads i = q at hf
  cases hf
  rfl

section Steps

variable [DecidableEq ι] {p : Thread} {q : InsertWithFallback.Thread Job}

/-- Thread `i` and its counterpart go on, and nothing else changes. -/
theorem Refines.setThread (h : Refines s u) (hpq : Follows p q) :
    Refines (s.setThread i p) (u.setThread i q) where
  degraded := h.degraded
  reconnecting := h.reconnecting
  threads j := by
    show Follows (Function.update s.threads i p j) (Function.update u.threads i q j)
    by_cases hj : j = i
    · subst hj
      rwa [Function.update_self, Function.update_self]
    · rw [Function.update_of_ne hj, Function.update_of_ne hj]
      exact h.threads j
  stored := h.stored
  fallback := h.fallback
  buffered := h.buffered

/-- Thread `i` goes on and its counterpart stays. -/
theorem Refines.stay (h : Refines s u) (hpq : Follows p (u.threads i)) :
    Refines (s.setThread i p) u := by
  have hset := h.setThread (i := i) hpq
  unfold InsertWithFallback.State.setThread at hset
  rwa [Function.update_eq_self] at hset

variable [Fintype ι]

/-- The template can follow the backend to `t`. -/
def Matched (u : InsertWithFallback.State ι Job) (t : State ι) : Prop :=
  ∃ bs v, (template ι).exec u bs = some v ∧ Refines t v

theorem Matched.step (i : ι) (answer : InsertWithFallback.Answer) (ht : Refines t v)
    (h : InsertWithFallback.run Job.retryAfterReconnect u i answer = some v) : Matched u t :=
  ⟨[.run i answer], v, (Machine.exec_singleton ..).trans h, ht⟩

theorem Matched.stay (h : Refines t u) : Matched u t := ⟨[], u, rfl, h⟩

/-- An attempt begins, or is left out because the backend is degraded. -/
theorem Refines.attempt {c : Call Job} {retried : Bool} (h : Refines s u)
    (hq : u.threads i = .enter c retried) (made : c.event.Made)
    (hfree : ¬ ∃ j, (s.threads j).holdsExclusive = true)
    (ht : t = if s.degraded then
        s.setThread i (if retried then .fallback c.event.items else .tryReconnect c.event)
      else s.setThread i (.inserting c.event.kind retried [] c.event.items)) :
    Matched u t := by
  subst ht
  cases hd : s.degraded with
  | true =>
    exact ⟨_, _, exec_enter_degraded hq (h.free hfree) (h.degraded.trans hd),
      h.setThread (.afterAttempt made retried)⟩
  | false =>
    refine ⟨_, _, exec_enter hq (h.free hfree) (h.degraded.trans hd), h.setThread ?_⟩
    obtain ⟨x, todo, heq⟩ := List.exists_cons_of_ne_nil made.nonempty
    rw [heq]
    exact .inserting made (by rw [List.nil_append, ← heq])

/-- A row is accepted. -/
theorem Refines.row {c : Call Job} {kind : EventKind} {retried : Bool} {done todo : List Item}
    {x : Item} {w : Option TableWriter} (h : Refines s u) (hq : u.threads i = .inserting c retried)
    (made : c.event.Made) (job : c.event = ⟨kind, done ++ x :: todo⟩) :
    Matched u ({ s.setWriter kind w with accepted := s.accepted ++ [x] }.setThread i
        (.inserting kind retried (done ++ [x]) todo)) := by
  have hitems : c.event.items = done ++ x :: todo := by rw [job]
  cases todo with
  | nil =>
    have hbooks : booksOf (u.stored ++ [c]) = books s.accepted ++ books [x] := by
      rw [booksOf_append, h.stored, made.books_last hitems]
    exact .step i {} ((h.accept hbooks).setThread (.inserted (c := c)))
      (by simp [InsertWithFallback.run, hq])
  | cons y todo =>
    -- the attempt goes on
    have hbooks : booksOf u.stored = books s.accepted ++ books [x] := by
      rw [made.books_inner hitems, List.append_nil, h.stored]
    refine .stay ((h.accept hbooks).stay ?_)
    show Follows _ (u.threads i)
    rw [hq]
    exact .inserting made (by rw [job, List.append_assoc]; rfl)

/-- A row is appended to the fallback. -/
theorem Refines.appendRow {c : Call Job} {x : Item} {todo : List Item} (h : Refines s u)
    (hq : u.threads i = .fallback c) (made : c.event.Made)
    (hsuffix : x :: todo <:+ c.event.items) :
    Matched u ({ s with fallback := s.fallback ++ [x] }.setThread i (.fallback todo)) := by
  obtain ⟨done, hitems⟩ := hsuffix
  cases todo with
  | nil =>
    have hbooks : booksOf (u.fallback ++ [c]) = books s.fallback ++ books [x] := by
      rw [booksOf_append, h.fallback, made.books_last hitems.symm]
    exact .step i {} ((h.append hbooks).setThread (.written (c := c)))
      (by simp [InsertWithFallback.run, hq])
  | cons y todo =>
    have hbooks : booksOf u.fallback = books s.fallback ++ books [x] := by
      rw [made.books_inner hitems.symm, List.append_nil, h.fallback]
    refine .stay ((h.append hbooks).stay ?_)
    show Follows _ (u.threads i)
    rw [hq]
    exact .fallback made ⟨done ++ [x], by rw [← hitems, List.append_assoc]; rfl⟩

/-- `Reconnect` returns. -/
theorem Refines.connect {c : Call Job} (h : Refines s u) (hq : u.threads i = .reconnecting c)
    (made : c.event.Made) (outcome : ReconnectOutcome) :
    Matched u ((connect s outcome).setThread i (.leaving c.event outcome.ok)) := by
  have hfailed : (InsertWithFallback.run Job.retryAfterReconnect u i { reconnect := false }) =
      some (u.setThread i (.leaving c false)) := by
    simp [InsertWithFallback.run, hq]
  cases outcome with
  | recovered =>
    have hback : Refines (DolphinDBBackend.connect s .recovered) { u with degraded := false } :=
      ⟨rfl, h.reconnecting, h.threads, h.stored, h.fallback, h.buffered⟩
    exact ⟨_, _, exec_recovered hq, hback.setThread (.leaving made)⟩
  | unreachable =>
    have hdown : Refines (DolphinDBBackend.connect s .unreachable) u :=
      ⟨h.degraded, h.reconnecting, h.threads, h.stored, h.fallback, h.buffered⟩
    exact .step i _ (hdown.setThread (.leaving made)) hfailed
  | notInitialized =>
    have hdown : Refines (DolphinDBBackend.connect s .notInitialized) u :=
      ⟨h.degraded, h.reconnecting, h.threads, h.stored, h.fallback, h.buffered⟩
    exact .step i _ (hdown.setThread (.leaving made)) hfailed

variable {answer : Answer} {c : Call Job}

/-- The next row of an attempt. -/
theorem Refines.inserting {kind : EventKind} {retried : Bool} {done todo : List Item} {x : Item}
    (h : Refines s u) (hp : s.threads i = .inserting kind retried done (x :: todo))
    (hq : u.threads i = .inserting c retried) (made : c.event.Made)
    (job : c.event = ⟨kind, done ++ x :: todo⟩) (hs : runThread cfg s i answer = some t) :
    Matched u t := by
  simp only [runThread, hp] at hs
  cases hrow : insertRow cfg s kind x answer.row with
  | some s' =>
    rw [hrow] at hs
    cases hs
    obtain ⟨w, -, rfl⟩ := insertRow_eq_some hrow
    exact h.row hq made job
  | none =>
    rw [hrow] at hs
    cases hs
    refine ⟨_, _, exec_refused hq, (h.setDegraded true).setThread ?_⟩
    have hafter := Follows.afterAttempt made retried
    rwa [job] at hafter

theorem Refines.tryReconnect (h : Refines s u) (hp : s.threads i = .tryReconnect c.event)
    (hq : u.threads i = .tryReconnect c) (made : c.event.Made)
    (hs : runThread cfg s i answer = some t) : Matched u t := by
  simp only [runThread, hp] at hs
  split at hs
  next hr =>
    cases hs
    exact .step i {} (h.setThread (.awaiting made))
      (by simp [InsertWithFallback.run, hq, h.reconnecting, hr])
  next hr =>
    cases hs
    exact .step i {} ((h.setReconnecting true).setThread (.locking made))
      (by simp [InsertWithFallback.run, hq, h.reconnecting, hr])

/-- A thread waits for the one that reconnects, and gives up after a while. -/
theorem Refines.awaiting (h : Refines s u) (hp : s.threads i = .awaiting c.event)
    (hq : u.threads i = .awaiting c) (made : c.event.Made)
    (hs : runThread cfg s i answer = some t) : Matched u t := by
  simp only [runThread, hp] at hs
  split at hs
  next =>
    cases hs
    exact .step i { giveUp := true } (h.setThread (.afterReconnect made false))
      (by simp [InsertWithFallback.run, hq])
  next =>
    split at hs
    next => cases hs
    next hr =>
      cases hs
      exact .step i {} (h.setThread (.awaited made))
        (by simp [InsertWithFallback.run, hq, h.reconnecting, hr])

theorem Refines.locking (h : Refines s u) (hp : s.threads i = .locking c.event)
    (hq : u.threads i = .locking c) (made : c.event.Made)
    (hs : runThread cfg s i answer = some t) : Matched u t := by
  simp only [runThread, hp, Option.ite_none_left_eq_some] at hs
  obtain ⟨hfree, hs⟩ := hs
  cases hs
  simp only [← (h.threads _).holdsShared, ← (h.threads _).holdsExclusive] at hfree
  exact .step i {} (h.setThread (.destroying made))
    (by simp only [InsertWithFallback.run, hq, if_neg hfree])

/-- The writers are destroyed one after the other before the connection is made. -/
theorem Refines.destroying {left : List EventKind} (h : Refines s u)
    (hp : s.threads i = .destroying c.event left) (hq : u.threads i = .reconnecting c)
    (made : c.event.Made) (hs : runThread cfg s i answer = some t) : Matched u t := by
  simp only [runThread, hp] at hs
  cases left with
  | nil =>
    cases hs
    exact .stay (h.stay (hq ▸ .connecting made))
  | cons kind left =>
    cases hs
    exact .stay ((h.destroyWriter kind).stay (hq ▸ .destroying made))

theorem Refines.run (h : Refines s u) (hs : runThread cfg s i answer = some t) : Matched u t := by
  have hf := h.threads i
  generalize hp : s.threads i = p at hf
  generalize hq : u.threads i = q at hf
  cases hf with
  | inserting made job => exact h.inserting hp hq made job hs
  | tryReconnect made => exact h.tryReconnect hp hq made hs
  | awaiting made => exact h.awaiting hp hq made hs
  | locking made => exact h.locking hp hq made hs
  | destroying made => exact h.destroying hp hq made hs
  | idle =>
    simp only [runThread, hp] at hs
    cases hs
  | enter made | retry made =>
    simp only [runThread, hp, Option.ite_none_left_eq_some] at hs
    obtain ⟨hfree, hs⟩ := hs
    refine h.attempt hq made hfree ?_
    split at hs
    next hd => cases hs; rw [if_pos hd]; rfl
    next hd => cases hs; rw [if_neg hd]
  | inserted | written =>
    simp only [runThread, hp] at hs
    cases hs
    exact .step i {} ((h.return _).setThread .idle) (by simp [InsertWithFallback.run, hq]; rfl)
  | awaited made =>
    simp only [runThread, hp] at hs
    cases hs
    exact .step i {} (h.setThread (.afterReconnect made _))
      (by simp [InsertWithFallback.run, hq, h.degraded])
  | connecting made =>
    simp only [runThread, hp] at hs
    cases hs
    exact h.connect hq made answer.reconnect
  | leaving made =>
    simp only [runThread, hp] at hs
    cases hs
    exact .step i {} ((h.setReconnecting false).setThread (.unlocking made))
      (by simp [InsertWithFallback.run, hq])
  | unlocking made =>
    simp only [runThread, hp] at hs
    cases hs
    exact .step i {} (h.setThread (.afterReconnect made _)) (by simp [InsertWithFallback.run, hq])
  | fallback made hsuffix =>
    simp only [runThread, hp] at hs
    cases hs
    exact h.appendRow hq made hsuffix

/-- An idle thread calls `InsertWithFallback`. -/
theorem Refines.call {job : Job} (h : Refines s u) (hidle : s.threads i = .idle)
    (made : job.Made) : Matched u (s.setThread i (.enter job)) := by
  have hcall : InsertWithFallback.call u i job =
      some ({ u with next := u.next + 1 }.setThread i (.enter ⟨u.next, job⟩ false)) := by
    unfold InsertWithFallback.call
    rw [h.idle hidle]
    rfl
  have hnext : Refines s { u with next := u.next + 1 } :=
    ⟨h.degraded, h.reconnecting, h.threads, h.stored, h.fallback, h.buffered⟩
  exact ⟨[.call i job], _, (Machine.exec_singleton ..).trans hcall,
    hnext.setThread (.enter (c := ⟨u.next, job⟩) made)⟩

theorem Refines.flush {batch : List Item} (h : Refines s u) (hidle : s.threads i = .idle)
    (hticks : ∀ x ∈ batch, x.record.kind = .tick) :
    Matched u (s.setThread i (flushBuffer cfg batch)) := by
  cases hempty : (batch.filter (cfg.valid ·.record)).isEmpty with
  | true =>
    rw [flushBuffer_of_isEmpty hempty]
    exact .stay (h.stay (h.idle hidle ▸ .idle))
  | false =>
    have hflush : flushBuffer cfg batch = .enter ⟨.tick, batch.filter (cfg.valid ·.record)⟩ := by
      unfold flushBuffer
      exact if_neg (Bool.eq_false_iff.mp hempty)
    rw [hflush]
    exact h.call hidle (.flush hempty hticks)

theorem Refines.insert {r : Record} {nowNs flushNs : UInt64} (h : Refines s u)
    (hs : DolphinDBBackend.insert cfg s i r nowNs flushNs = some t) : Matched u t := by
  unfold DolphinDBBackend.insert at hs
  simp only [Option.ite_none_right_eq_some, Bool.and_eq_true] at hs
  obtain ⟨⟨hidle, -⟩, hs⟩ := hs
  rw [isIdle_iff] at hidle
  have hdirect : ∀ {x : Item}, x.record = r →
      Matched u (({ s with next := s.next + 1, handed := s.handed ++ [x] } : State ι).setThread i
        (if cfg.valid r then .enter ⟨r.kind, [x]⟩ else .idle)) := by
    intro x hx
    have h' : Refines ({ s with next := s.next + 1, handed := s.handed ++ [x] } : State ι) u :=
      ⟨h.degraded, h.reconnecting, h.threads, h.stored, h.fallback, h.buffered⟩
    split
    · refine h'.call hidle ⟨List.cons_ne_nil _ _, fun y hy => ?_, fun _ => rfl⟩
      rw [List.mem_singleton.mp hy, hx]
    · exact .stay (h'.stay (h.idle hidle ▸ .idle))
  cases r with
  | tick tick =>
    cases hs
    have hpush : ∀ y, y ∈ (s.buffer.push cfg ⟨s.next, .tick tick⟩ nowNs flushNs).1.a ++
        (s.buffer.push cfg ⟨s.next, .tick tick⟩ nowNs flushNs).1.b ++
        (s.buffer.push cfg ⟨s.next, .tick tick⟩ nowNs flushNs).2 → y.record.kind = .tick := by
      intro y hy
      rw [← Multiset.mem_coe, ← Multiset.coe_add, push_ledger, Multiset.mem_add] at hy
      rcases hy with hy | hy
      · exact h.buffered y (List.mem_append_left _ hy)
      · rw [List.mem_singleton.mp hy]
        rfl
    refine Refines.flush ⟨h.degraded, h.reconnecting, h.threads, h.stored, h.fallback,
      fun y hy => ?_⟩ hidle fun y hy => hpush y (List.mem_append_right _ hy)
    rcases List.mem_append.mp hy with hy | hy
    · exact hpush y (List.mem_append_left _ hy)
    · exact h.buffered y (List.mem_append_right _ hy)
  | orderbook event localTs =>
    cases hs
    exact hdirect rfl
  | bookTicker event =>
    cases hs
    exact hdirect rfl

theorem Refines.close (h : Refines s u) (hs : DolphinDBBackend.close cfg s i = some t) :
    Matched u t := by
  obtain ⟨hidle, hs⟩ := closeStep hs
  cases hs with
  | takeBuffers hcl =>
    refine .stay ⟨h.degraded, h.reconnecting, h.threads, h.stored, h.fallback, ?_⟩
    intro x hx
    refine h.buffered x (List.mem_append_left _ ?_)
    simpa [Closing.pending] using hx
  | @flush batch left hcl =>
    have hpending : ∀ x ∈ batch ++ left.flatten, x.record.kind = .tick := by
      intro x hx
      refine h.buffered x (List.mem_append_right _ ?_)
      rw [hcl]
      exact hx
    have h' : Refines { s with closing := .flushing left } u := by
      refine ⟨h.degraded, h.reconnecting, h.threads, h.stored, h.fallback, fun x hx => ?_⟩
      rcases List.mem_append.mp hx with hx | hx
      · exact h.buffered x (List.mem_append_left _ hx)
      · exact hpending x (List.mem_append_right _ hx)
    exact h'.flush (hidle i) fun x hx => hpending x (List.mem_append_left _ hx)
  | flushed | destroyed | disconnected =>
    refine .stay ⟨h.degraded, h.reconnecting, h.threads, h.stored, h.fallback, ?_⟩
    intro x hx
    refine h.buffered x (List.mem_append_left _ ?_)
    simpa [Closing.pending, DolphinDBBackend.destroyWriter, State.setWriter] using hx

theorem Refines.step {a : Action ι} (h : Refines s u)
    (hs : DolphinDBBackend.step cfg s a = some t) : Matched u t := by
  cases a with
  | insert i r nowNs flushNs => exact h.insert hs
  | run i answer => exact h.run hs
  | close i => exact h.close hs
  | send kind n =>
    obtain ⟨⟨w, x⟩, -, rfl⟩ := Option.map_eq_some_iff.mp hs
    exact .stay ⟨h.degraded, h.reconnecting, h.threads, h.stored, h.fallback, h.buffered⟩
  | failSend kind n =>
    obtain ⟨⟨w, x⟩, -, rfl⟩ := Option.map_eq_some_iff.mp hs
    exact .stay ⟨h.degraded, h.reconnecting, h.threads, h.stored, h.fallback, h.buffered⟩

/-- Every run of the backend is matched by a run of the template. -/
theorem exec_refines {connected : Bool} {as : List (Action ι)}
    (h : (machine cfg ι connected).exec (machine cfg ι connected).init as = some t) :
    Matched (template ι).init t := by
  have hinit : Refines (machine cfg ι connected).init (template ι).init :=
    ⟨rfl, rfl, fun _ => .idle, rfl, rfl, fun x hx => by cases hx⟩
  exact (machine cfg ι connected).exec_simulates (fun hR hs => hR.step hs) hinit h

/-- While a thread of the backend reconnects, the others are outside the database. -/
theorem exec_exclusive {connected : Bool} {as : List (Action ι)} {i j : ι}
    (h : (machine cfg ι connected).exec (machine cfg ι connected).init as = some t)
    (hi : (t.threads i).holdsExclusive = true) (hne : i ≠ j) :
    (t.threads j).holdsShared = false ∧ (t.threads j).holdsExclusive = false := by
  obtain ⟨bs, v, hv, ht⟩ := exec_refines h
  rw [← (ht.threads i).holdsExclusive] at hi
  rw [← (ht.threads j).holdsShared, ← (ht.threads j).holdsExclusive]
  exact (InsertWithFallback.exec_inv hv).locks hi hne

end Steps

end Sqc.DolphinDBBackend
