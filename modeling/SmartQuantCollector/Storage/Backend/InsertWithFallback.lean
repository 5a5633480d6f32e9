import Mathlib.Data.Fintype.Basic
import SmartQuantCollector.Lib.Ledger
import SmartQuantCollector.Lib.Machine

/-! # `InsertWithFallback` and `TryReconnect` (`src/storage/backend/dolphindb_backend.cpp`)

The template `InsertWithFallback` on its own, for any `try_insert` that stores the event of its call
or stores nothing, any `Reconnect` and a fallback that is written: the two attempts under the shared
side of `dolphindb_mtx_`, the gate `reconnecting_`, and the reconnect under the exclusive side. An
access to something shared is a step of its own.

Calls are numbered, so that two equal events are told apart. `exec_exactlyOnce` says what all
schedules of any number of threads have in common. -/

namespace Sqc.InsertWithFallback

open Concurrency

structure Call (α : Type*) where
  seq : Nat
  event : α
deriving DecidableEq

/-- The next step of a thread; `retried` says that the attempt is the second one. -/
inductive Thread (α : Type*) where
  | idle
  /-- Before the shared lock. -/
  | enter (c : Call α) (retried : Bool)
  /-- Before the load of `degraded_`. -/
  | load (c : Call α) (retried : Bool)
  /-- Inside `try_insert`. -/
  | inserting (c : Call α) (retried : Bool)
  /-- `try_insert` has returned false or thrown; before the store to `degraded_`. -/
  | degrade (c : Call α) (retried : Bool)
  /-- Before the release of the shared lock, with nothing stored. -/
  | release (c : Call α) (retried : Bool)
  /-- `try_insert` has returned true; before the release of the shared lock. -/
  | stored (c : Call α)
  /-- Before the compare-and-swap on `reconnecting_`. -/
  | tryReconnect (c : Call α)
  /-- In the loop that waits for another thread's reconnect. -/
  | awaiting (c : Call α)
  /-- Before the load of `degraded_` after the loop. -/
  | awaited (c : Call α)
  /-- Before the exclusive lock. -/
  | locking (c : Call α)
  /-- Inside `Reconnect`. -/
  | reconnecting (c : Call α)
  /-- `Reconnect` has returned true; before the store to `degraded_`. -/
  | recovered (c : Call α)
  /-- Before the store to `reconnecting_`. -/
  | leaving (c : Call α) (ok : Bool)
  /-- Before the release of the exclusive lock. -/
  | unlocking (c : Call α) (ok : Bool)
  | fallback (c : Call α)
  /-- The fallback has been written. -/
  | written (c : Call α)

namespace Thread

variable {α : Type*}

def isIdle : Thread α → Bool
  | .idle => true
  | _ => false

def holdsShared : Thread α → Bool
  | .load .. | .inserting .. | .degrade .. | .release .. | .stored _ => true
  | _ => false

def holdsExclusive : Thread α → Bool
  | .reconnecting _ | .recovered _ | .leaving .. | .unlocking .. => true
  | _ => false

def insideTryInsert : Thread α → Bool
  | .inserting .. => true
  | _ => false

def insideReconnect : Thread α → Bool
  | .reconnecting _ => true
  | _ => false

/-- The call of the thread, while its event is not stored. -/
def pending : Thread α → List (Call α)
  | .idle | .stored _ | .written _ => []
  | .enter c _ | .load c _ | .inserting c _ | .degrade c _ | .release c _ | .tryReconnect c
  | .awaiting c | .awaited c | .locking c | .reconnecting c | .recovered c | .leaving c _
  | .unlocking c _ | .fallback c => [c]

/-- The call of the thread, when its event is stored. -/
def settled : Thread α → List (Call α)
  | .stored c | .written c => [c]
  | _ => []

end Thread

structure State (ι α : Type*) where
  degraded : Bool := false
  reconnecting : Bool := false
  threads : ι → Thread α := fun _ => .idle
  /-- The number of calls made. -/
  next : Nat := 0
  /-- What `try_insert` has stored. -/
  stored : List (Call α) := []
  fallback : List (Call α) := []
  returned : List (Call α) := []

inductive Attempt where
  | stores
  | refuses
  | throws
deriving DecidableEq

/-- What the environment decides when a thread asks it. -/
structure Answer where
  attempt : Attempt := .stores
  /-- The spin limit is reached or shutdown was requested. -/
  giveUp : Bool := false
  reconnect : Bool := true

inductive Action (ι α : Type*) where
  | call (i : ι) (event : α)
  | run (i : ι) (answer : Answer)

section Steps

variable {ι α : Type*}

/-- After the end of a failed attempt. -/
def afterAttempt (c : Call α) (retried : Bool) : Thread α :=
  if retried then .fallback c else .tryReconnect c

/-- After `TryReconnect` has returned. -/
def afterReconnect (retryAfterReconnect : α → Bool) (c : Call α) (ok : Bool) : Thread α :=
  if ok && retryAfterReconnect c.event then .enter c true else .fallback c

variable [DecidableEq ι]

def State.setThread (s : State ι α) (i : ι) (p : Thread α) : State ι α :=
  { s with threads := Function.update s.threads i p }

@[simp] theorem State.threads_setThread_self (s : State ι α) (i : ι) (p : Thread α) :
    (s.setThread i p).threads i = p := Function.update_self ..

@[simp] theorem State.degraded_setThread (s : State ι α) (i : ι) (p : Thread α) :
    (s.setThread i p).degraded = s.degraded := rfl

@[simp] theorem State.setThread_setThread (s : State ι α) (i : ι) (p q : Thread α) :
    (s.setThread i p).setThread i q = s.setThread i q := by
  unfold State.setThread
  rw [Function.update_idem]

@[simp] theorem State.setThread_degraded (s : State ι α) (i : ι) (p q : Thread α) (b : Bool) :
    State.setThread { s.setThread i p with degraded := b } i q =
      State.setThread { s with degraded := b } i q := by
  unfold State.setThread
  rw [Function.update_idem]

def call (s : State ι α) (i : ι) (event : α) : Option (State ι α) :=
  if (s.threads i).isIdle then
    some ({ s with next := s.next + 1 }.setThread i (.enter ⟨s.next, event⟩ false))
  else none

variable [Fintype ι]

def run (retryAfterReconnect : α → Bool) (s : State ι α) (i : ι) (answer : Answer) :
    Option (State ι α) :=
  match s.threads i with
  | .idle => none
  | .enter c retried =>
    if ∃ j, (s.threads j).holdsExclusive = true then none
    else some (s.setThread i (.load c retried))
  | .load c retried =>
    some (s.setThread i (if s.degraded then .release c retried else .inserting c retried))
  | .inserting c retried =>
    match answer.attempt with
    | .stores => some ({ s with stored := s.stored ++ [c] }.setThread i (.stored c))
    | .refuses | .throws => some (s.setThread i (.degrade c retried))
  | .degrade c retried => some ({ s with degraded := true }.setThread i (.release c retried))
  | .release c retried => some (s.setThread i (afterAttempt c retried))
  | .stored c => some ({ s with returned := s.returned ++ [c] }.setThread i .idle)
  | .tryReconnect c =>
    if s.reconnecting then some (s.setThread i (.awaiting c))
    else some ({ s with reconnecting := true }.setThread i (.locking c))
  | .awaiting c =>
    if answer.giveUp then some (s.setThread i (afterReconnect retryAfterReconnect c false))
    else if s.reconnecting then none
    else some (s.setThread i (.awaited c))
  | .awaited c => some (s.setThread i (afterReconnect retryAfterReconnect c (!s.degraded)))
  | .locking c =>
    if ∃ j, (s.threads j).holdsShared = true ∨ (s.threads j).holdsExclusive = true then none
    else some (s.setThread i (.reconnecting c))
  | .reconnecting c =>
    some (s.setThread i (if answer.reconnect then .recovered c else .leaving c false))
  | .recovered c => some ({ s with degraded := false }.setThread i (.leaving c true))
  | .leaving c ok => some ({ s with reconnecting := false }.setThread i (.unlocking c ok))
  | .unlocking c ok => some (s.setThread i (afterReconnect retryAfterReconnect c ok))
  | .fallback c => some ({ s with fallback := s.fallback ++ [c] }.setThread i (.written c))
  | .written c => some ({ s with returned := s.returned ++ [c] }.setThread i .idle)

def machine (ι α : Type*) [DecidableEq ι] [Fintype ι] (retryAfterReconnect : α → Bool) :
    Machine (State ι α) (Action ι α) where
  init := {}
  step s
    | .call i event => call s i event
    | .run i answer => run retryAfterReconnect s i answer

end Steps

/-- What the calls, the inserts and the reconnects can rely on. -/
structure ExactlyOnce {ι α : Type*} (s : State ι α) : Prop where
  /-- A call is under way or has returned. -/
  called : ∀ n < s.next, ∃ c : Call α, c.seq = n ∧
    (c ∈ s.returned ∨ ∃ i, c ∈ (s.threads i).pending ++ (s.threads i).settled)
  /-- The event of a call that has returned is stored, and no other event under its number. -/
  once : ∀ c ∈ s.returned, (s.stored ++ s.fallback).filter (·.seq = c.seq) = [c]
  reconnect_unique : ∀ {i j}, (s.threads i).insideReconnect = true →
    (s.threads j).insideReconnect = true → i = j
  no_insert : ∀ {i j}, (s.threads i).insideReconnect = true →
    (s.threads j).insideTryInsert = false

/-! ## What a step does -/

variable {ι α : Type*} {retryAfterReconnect : α → Bool} {s t : State ι α} {i : ι}

/-- Outside the locks, with the event of the call to store. -/
structure Thread.Outside (p : Thread α) (c : Call α) : Prop where
  pending : p.pending = [c]
  settled : p.settled = []
  shared : p.holdsShared = false
  exclusive : p.holdsExclusive = false

theorem outside_afterAttempt (c : Call α) (retried : Bool) :
    (afterAttempt c retried).Outside c := by
  cases retried <;> exact ⟨rfl, rfl, rfl, rfl⟩

theorem outside_afterReconnect (c : Call α) (ok : Bool) :
    (afterReconnect retryAfterReconnect c ok).Outside c := by
  unfold afterReconnect
  split <;> exact ⟨rfl, rfl, rfl, rfl⟩

/-- A lock is taken when the other threads leave it free. -/
structure LockStep (s : State ι α) (i : ι) (p : Thread α) : Prop where
  shared : p.holdsShared = true →
    (s.threads i).holdsShared = true ∨ ∀ j, (s.threads j).holdsExclusive = false
  exclusive : p.holdsExclusive = true → (s.threads i).holdsExclusive = true ∨
    ∀ j, (s.threads j).holdsShared = false ∧ (s.threads j).holdsExclusive = false

/-- Who has the exclusive lock is alone. -/
def Locks (s : State ι α) : Prop :=
  ∀ {i j}, (s.threads i).holdsExclusive = true → i ≠ j →
    (s.threads j).holdsShared = false ∧ (s.threads j).holdsExclusive = false

theorem LockStep.locks [DecidableEq ι] {p : Thread α} (h : LockStep s i p) (hs : Locks s)
    (ht : t.threads = Function.update s.threads i p) : Locks t := by
  intro j k hj hne
  rw [ht] at hj ⊢
  by_cases hji : j = i
  · subst hji
    rw [Function.update_self] at hj
    rw [Function.update_of_ne hne.symm]
    rcases h.exclusive hj with hexclusive | hfree
    · exact hs hexclusive hne
    · exact hfree k
  · rw [Function.update_of_ne hji] at hj
    by_cases hki : k = i
    · subst hki
      obtain ⟨hshared, hexclusive⟩ := hs hj hne
      rw [Function.update_self]
      -- thread `j` has the exclusive lock, so the other one cannot have got any
      refine ⟨Bool.eq_false_iff.mpr fun hp => ?_, Bool.eq_false_iff.mpr fun hp => ?_⟩
      · rcases h.shared hp with hold | hfree
        · exact Bool.noConfusion (hold.symm.trans hshared)
        · exact Bool.noConfusion (hj.symm.trans (hfree j))
      · rcases h.exclusive hp with hold | hfree
        · exact Bool.noConfusion (hold.symm.trans hexclusive)
        · exact Bool.noConfusion (hj.symm.trans (hfree j).2)
    · rw [Function.update_of_ne hki]
      exact hs hj hne

theorem exclusive_of_insideReconnect (h : (s.threads i).insideReconnect = true) :
    (s.threads i).holdsExclusive = true := by
  cases hth : s.threads i with
  | reconnecting => rfl
  | _ => rw [hth] at h; cases h

theorem shared_of_insideTryInsert (h : (s.threads i).insideTryInsert = true) :
    (s.threads i).holdsShared = true := by
  cases hth : s.threads i with
  | inserting => rfl
  | _ => rw [hth] at h; cases h

/-- Thread `i` goes on to `p`; the calls `new` are stored and the calls `ret` return. -/
structure Effect [DecidableEq ι] (s : State ι α) (i : ι) (t : State ι α) (p : Thread α)
    (new ret : List (Call α)) : Prop where
  threads : t.threads = Function.update s.threads i p
  next : t.next = s.next
  stored : (t.stored ++ t.fallback).Perm (s.stored ++ s.fallback ++ new)
  returned : t.returned = s.returned ++ ret
  pending : (s.threads i).pending = p.pending ++ new
  settled : (s.threads i).settled ++ new = p.settled ++ ret
  lock : LockStep s i p

section Run

variable [DecidableEq ι]

/-- A step that neither stores anything nor takes a lock. -/
theorem Effect.move {p q : Thread α} (degraded reconnecting : Bool) (hq : s.threads i = q)
    (hpending : q.pending = p.pending) (hsettled : q.settled = p.settled)
    (hshared : p.holdsShared = true → q.holdsShared = true)
    (hexclusive : p.holdsExclusive = true → q.holdsExclusive = true) :
    Effect s i ({ s with degraded := degraded, reconnecting := reconnecting }.setThread i p) p
      [] [] := by
  subst hq
  exact ⟨rfl, rfl, by rw [List.append_nil]; rfl, (List.append_nil _).symm,
    by rw [hpending, List.append_nil], by rw [hsettled], fun h => .inl (hshared h),
    fun h => .inl (hexclusive h)⟩

/-- A step on to a place outside the locks. -/
theorem Effect.goOutside {p q : Thread α} {c : Call α} (hq : s.threads i = q) (hp : p.Outside c)
    (hpending : q.pending = [c]) (hsettled : q.settled = []) :
    Effect s i (s.setThread i p) p [] [] :=
  .move s.degraded s.reconnecting hq (hpending.trans hp.pending.symm)
    (hsettled.trans hp.settled.symm) (fun h => Bool.noConfusion (h.symm.trans hp.shared))
    (fun h => Bool.noConfusion (h.symm.trans hp.exclusive))

/-- A step that keeps the lock the thread has. -/
theorem Effect.keepLock {p q : Thread α} (degraded reconnecting : Bool) (hq : s.threads i = q)
    (hpending : q.pending = p.pending) (hsettled : q.settled = p.settled)
    (hshared : p.holdsShared = q.holdsShared) (hexclusive : p.holdsExclusive = q.holdsExclusive) :
    Effect s i ({ s with degraded := degraded, reconnecting := reconnecting }.setThread i p) p
      [] [] :=
  .move degraded reconnecting hq hpending hsettled (fun h => hshared ▸ h) (fun h => hexclusive ▸ h)

/-- The call of the thread returns. -/
theorem Effect.return {q : Thread α} {c : Call α} (hq : s.threads i = q)
    (hpending : q.pending = []) (hsettled : q.settled = [c]) :
    Effect s i ({ s with returned := s.returned ++ [c] }.setThread i .idle) .idle [] [c] := by
  subst hq
  exact ⟨rfl, rfl, by rw [List.append_nil]; rfl, rfl, hpending, by rw [hsettled]; rfl,
    fun h => Bool.noConfusion h, fun h => Bool.noConfusion h⟩

/-- A call that is under way is under way or has returned afterwards. -/
theorem Effect.called {p : Thread α} {new ret : List (Call α)}
    (h : Effect s i t p new ret) {c : Call α}
    (hc : c ∈ s.returned ∨ ∃ j, c ∈ (s.threads j).pending ++ (s.threads j).settled) :
    c ∈ t.returned ∨ ∃ j, c ∈ (t.threads j).pending ++ (t.threads j).settled := by
  rw [h.returned, h.threads]
  rcases hc with hc | ⟨j, hc⟩
  · exact .inl (List.mem_append_left _ hc)
  · by_cases hj : j = i
    · subst hj
      have hsettled : c ∈ (s.threads j).settled ++ new → c ∈ p.settled ∨ c ∈ ret := by
        rw [h.settled]
        exact List.mem_append.mp
      have hcases : c ∈ p.pending ∨ c ∈ p.settled ∨ c ∈ ret := by
        rw [h.pending, List.append_assoc, List.mem_append] at hc
        rcases hc with hc | hc
        · exact .inl hc
        · exact .inr (hsettled (List.perm_append_comm.mem_iff.mp hc))
      rcases hcases with hp | hp | hret
      · exact .inr ⟨j, by rw [Function.update_self]; exact List.mem_append_left _ hp⟩
      · exact .inr ⟨j, by rw [Function.update_self]; exact List.mem_append_right _ hp⟩
      · exact .inl (List.mem_append_right _ hret)
    · exact .inr ⟨j, by rw [Function.update_of_ne hj]; exact hc⟩

variable [Fintype ι]

variable {answer : Answer} {c : Call α} {retried : Bool}

/-- The shared lock is taken when no thread has the exclusive one. -/
theorem enter_effect (hth : s.threads i = .enter c retried)
    (h : run retryAfterReconnect s i answer = some t) : ∃ p new ret, Effect s i t p new ret := by
  simp only [run, hth, Option.ite_none_left_eq_some] at h
  obtain ⟨hfree, h⟩ := h
  cases h
  have hnone : ∀ j, (s.threads j).holdsExclusive = false :=
    fun j => Bool.eq_false_iff.mpr fun hj => hfree ⟨j, hj⟩
  exact ⟨.load c retried, [], [], rfl, rfl, by rw [List.append_nil]; rfl,
    (List.append_nil _).symm, by rw [hth]; rfl, by rw [hth]; rfl, fun _ => .inr hnone,
    fun h => Bool.noConfusion h⟩

theorem inserting_effect (hth : s.threads i = .inserting c retried)
    (h : run retryAfterReconnect s i answer = some t) : ∃ p new ret, Effect s i t p new ret := by
  simp only [run, hth] at h
  cases hans : answer.attempt with
  | stores =>
    rw [hans] at h
    cases h
    refine ⟨.stored c, [c], [], rfl, rfl, ?_, (List.append_nil _).symm, by rw [hth]; rfl,
      by rw [hth]; rfl, fun _ => .inl (by rw [hth]; rfl), fun h => Bool.noConfusion h⟩
    show (s.stored ++ [c] ++ s.fallback).Perm _
    rw [List.append_assoc, List.append_assoc]
    exact List.perm_append_comm.append_left _
  | refuses | throws =>
    rw [hans] at h
    cases h
    exact ⟨_, _, _, .keepLock s.degraded s.reconnecting hth rfl rfl rfl rfl⟩

/-- Only one thread reconnects; the others wait for it. -/
theorem awaiting_effect (hth : s.threads i = .awaiting c)
    (h : run retryAfterReconnect s i answer = some t) : ∃ p new ret, Effect s i t p new ret := by
  simp only [run, hth] at h
  split at h
  · cases h
    exact ⟨_, _, _, .goOutside hth (outside_afterReconnect c false) rfl rfl⟩
  · split at h
    · cases h
    · cases h
      exact ⟨_, _, _, .keepLock s.degraded s.reconnecting hth rfl rfl rfl rfl⟩

/-- The exclusive lock is taken when no thread has a lock. -/
theorem locking_effect (hth : s.threads i = .locking c)
    (h : run retryAfterReconnect s i answer = some t) : ∃ p new ret, Effect s i t p new ret := by
  simp only [run, hth, Option.ite_none_left_eq_some] at h
  obtain ⟨hfree, h⟩ := h
  cases h
  have hnone : ∀ j, (s.threads j).holdsShared = false ∧ (s.threads j).holdsExclusive = false :=
    fun j => ⟨Bool.eq_false_iff.mpr fun hj => hfree ⟨j, .inl hj⟩,
      Bool.eq_false_iff.mpr fun hj => hfree ⟨j, .inr hj⟩⟩
  exact ⟨.reconnecting c, [], [], rfl, rfl, by rw [List.append_nil]; rfl,
    (List.append_nil _).symm, by rw [hth]; rfl, by rw [hth]; rfl,
    fun h => Bool.noConfusion h, fun _ => .inr hnone⟩

theorem fallback_effect (hth : s.threads i = .fallback c)
    (h : run retryAfterReconnect s i answer = some t) : ∃ p new ret, Effect s i t p new ret := by
  simp only [run, hth] at h
  cases h
  refine ⟨.written c, [c], [], rfl, rfl, ?_, (List.append_nil _).symm, by rw [hth]; rfl,
    by rw [hth]; rfl, fun h => Bool.noConfusion h, fun h => Bool.noConfusion h⟩
  rw [List.append_assoc]
  rfl

theorem run_effect (h : run retryAfterReconnect s i answer = some t) :
    ∃ p new ret, Effect s i t p new ret := by
  cases hth : s.threads i with
  | enter c retried => exact enter_effect hth h
  | inserting c retried => exact inserting_effect hth h
  | awaiting c => exact awaiting_effect hth h
  | locking c => exact locking_effect hth h
  | fallback c => exact fallback_effect hth h
  | idle =>
    simp only [run, hth] at h
    cases h
  | load c retried | reconnecting c =>
    simp only [run, hth] at h
    cases h
    refine ⟨_, _, _, .keepLock s.degraded s.reconnecting hth ?_ ?_ ?_ ?_⟩ <;> split <;> rfl
  | tryReconnect c =>
    simp only [run, hth] at h
    split at h
    · cases h; exact ⟨_, _, _, .keepLock s.degraded s.reconnecting hth rfl rfl rfl rfl⟩
    · cases h; exact ⟨_, _, _, .keepLock s.degraded true hth rfl rfl rfl rfl⟩
  -- the operations on the flags
  | degrade c retried =>
    simp only [run, hth] at h
    cases h
    exact ⟨_, _, _, .keepLock true s.reconnecting hth rfl rfl rfl rfl⟩
  | recovered c =>
    simp only [run, hth] at h
    cases h
    exact ⟨_, _, _, .keepLock false s.reconnecting hth rfl rfl rfl rfl⟩
  | leaving c ok =>
    simp only [run, hth] at h
    cases h
    exact ⟨_, _, _, .keepLock s.degraded false hth rfl rfl rfl rfl⟩
  -- the ends of the locked parts and of the call
  | release c retried =>
    simp only [run, hth] at h
    cases h
    exact ⟨_, _, _, .goOutside hth (outside_afterAttempt c retried) rfl rfl⟩
  | awaited c =>
    simp only [run, hth] at h
    cases h
    exact ⟨_, _, _, .goOutside hth (outside_afterReconnect c _) rfl rfl⟩
  | unlocking c ok =>
    simp only [run, hth] at h
    cases h
    exact ⟨_, _, _, .goOutside hth (outside_afterReconnect c ok) rfl rfl⟩
  | stored c | written c =>
    simp only [run, hth] at h
    cases h
    exact ⟨_, _, _, .return hth rfl rfl⟩

end Run

/-! ## The invariant -/

section Inv

variable [Fintype ι]

/-- The calls whose events are stored and those that have yet to store theirs. -/
def held (s : State ι α) : Multiset (Call α) :=
  ↑(s.stored ++ s.fallback) + ∑ i, (↑(s.threads i).pending : Multiset (Call α))

structure Inv (s : State ι α) : Prop where
  numbered : NumberedBelow Call.seq s.next (held s)
  settled : ∀ i, (s.threads i).settled ⊆ s.stored ++ s.fallback
  returned : s.returned ⊆ s.stored ++ s.fallback
  called : ∀ n < s.next, ∃ c : Call α, c.seq = n ∧
    (c ∈ s.returned ∨ ∃ i, c ∈ (s.threads i).pending ++ (s.threads i).settled)
  locks : Locks s

theorem Inv.init : Inv (ι := ι) (α := α) {} where
  numbered := by
    have hheld : held ({} : State ι α) = 0 := by simp [held, Thread.pending]
    rw [hheld]
    exact ⟨List.nodup_nil, fun x hx => absurd hx (Multiset.notMem_zero x)⟩
  settled _ := List.nil_subset _
  returned := List.nil_subset _
  called n hn := absurd hn (Nat.not_lt_zero n)
  locks h _ := Bool.noConfusion h

variable [DecidableEq ι] {p : Thread α} {new ret : List (Call α)}

theorem Effect.held_eq (h : Effect s i t p new ret) : held t = held s := by
  classical
  have hsum := sum_update_add (fun p : Thread α => (↑p.pending : Multiset (Call α))) s.threads i p
  have hstored : (↑(t.stored ++ t.fallback) : Multiset (Call α)) =
      ↑(s.stored ++ s.fallback) + ↑new := by
    rw [Multiset.coe_add]
    exact Multiset.coe_eq_coe.mpr h.stored
  unfold held
  rw [hstored, h.threads]
  rw [h.pending] at hsum
  ext c
  have hsum := congrArg (Multiset.count c) hsum
  simp only [← Multiset.coe_add, Multiset.count_add] at hsum ⊢
  omega

theorem Effect.inv (h : Effect s i t p new ret) (hs : Inv s) : Inv t := by
  have hstored : s.stored ++ s.fallback ⊆ t.stored ++ t.fallback :=
    fun c hc => h.stored.mem_iff.mpr (List.mem_append_left _ hc)
  have hnew : (s.threads i).settled ++ new ⊆ t.stored ++ t.fallback :=
    List.append_subset.mpr ⟨fun c hc => hstored (hs.settled i hc),
      fun c hc => h.stored.mem_iff.mpr (List.mem_append_right _ hc)⟩
  rw [h.settled] at hnew
  obtain ⟨hsettled, hret⟩ := List.append_subset.mp hnew
  refine ⟨?_, fun j => ?_, ?_, fun n hn => ?_, h.lock.locks hs.locks h.threads⟩
  · rw [h.held_eq, h.next]
    exact hs.numbered
  · rw [h.threads]
    exact (Function.forall_update_iff s.threads fun _ q => q.settled ⊆ t.stored ++ t.fallback).mpr
      ⟨hsettled, fun j _ c hc => hstored (hs.settled j hc)⟩ j
  · rw [h.returned]
    exact List.append_subset.mpr ⟨fun c hc => hstored (hs.returned hc), hret⟩
  · rw [h.next] at hn
    obtain ⟨c, hseq, hc⟩ := hs.called n hn
    exact ⟨c, hseq, h.called hc⟩

/-- A call of an idle thread gets the next number. -/
theorem held_call {c : Call α} (hidle : s.threads i = .idle) :
    held (State.setThread { s with next := s.next + 1 } i (.enter c false)) = c ::ₘ held s := by
  have hsum := sum_update_add (fun p : Thread α => (↑p.pending : Multiset (Call α))) s.threads i
    (.enter c false)
  rw [hidle] at hsum
  unfold held
  rw [← Multiset.singleton_add, add_left_comm]
  congr 1
  exact (add_zero _).symm.trans (hsum.trans (add_comm _ _))

theorem Inv.call {event : α} (hs : Inv s) (h : call s i event = some t) : Inv t := by
  unfold InsertWithFallback.call at h
  rw [Option.ite_none_right_eq_some] at h
  obtain ⟨hidle, h⟩ := h
  cases h
  replace hidle : s.threads i = .idle := by
    cases hth : s.threads i with
    | idle => rfl
    | _ => rw [hth] at hidle; cases hidle
  have hlock : LockStep s i (.enter ⟨s.next, event⟩ false) :=
    ⟨fun h => Bool.noConfusion h, fun h => Bool.noConfusion h⟩
  refine ⟨?_, fun j => ?_, hs.returned, fun n hn => ?_, hlock.locks hs.locks rfl⟩
  · rw [held_call hidle]
    exact hs.numbered.of_cons rfl
  · exact (Function.forall_update_iff s.threads fun _ q => q.settled ⊆ s.stored ++ s.fallback).mpr
      ⟨List.nil_subset _, fun j _ => hs.settled j⟩ j
  · rcases Nat.lt_succ_iff_lt_or_eq.mp hn with hn | rfl
    · obtain ⟨c, hseq, hc | ⟨j, hc⟩⟩ := hs.called n hn
      · exact ⟨c, hseq, .inl hc⟩
      · have hj : j ≠ i := fun hj => by
          rw [hj, hidle] at hc
          cases hc
        refine ⟨c, hseq, .inr ⟨j, ?_⟩⟩
        simpa only [State.setThread, Function.update_of_ne hj] using hc
    · refine ⟨⟨s.next, event⟩, rfl, .inr ⟨i, ?_⟩⟩
      simp only [State.setThread, Function.update_self]
      exact List.mem_singleton_self _

theorem Inv.exactlyOnce (h : Inv s) : ExactlyOnce s where
  called := h.called
  once c hc := by
    have hle : (↑(s.stored ++ s.fallback) : Multiset (Call α)) ≤ held s :=
      Multiset.le_add_right _ _
    have hnodup := (h.numbered.of_le hle).nodup
    rw [Multiset.map_coe, Multiset.coe_nodup] at hnodup
    exact filter_number_eq_singleton hnodup (h.returned hc)
  reconnect_unique hi hj := by
    by_contra hne
    exact Bool.noConfusion ((exclusive_of_insideReconnect hj).symm.trans
      (h.locks (exclusive_of_insideReconnect hi) hne).2)
  no_insert {i j} hi := by
    refine Bool.eq_false_iff.mpr fun hj => ?_
    have hne : i ≠ j := by
      rintro rfl
      cases hth : s.threads i with
      | inserting => rw [hth] at hi; cases hi
      | _ => rw [hth] at hj; cases hj
    exact Bool.noConfusion ((shared_of_insideTryInsert hj).symm.trans
      (h.locks (exclusive_of_insideReconnect hi) hne).1)

theorem exec_inv {as : List (Action ι α)}
    (h : (machine ι α retryAfterReconnect).exec (machine ι α retryAfterReconnect).init as =
      some s) : Inv s := by
  refine (machine ι α retryAfterReconnect).exec_invariant (C := fun _ _ => True)
    (fun s a t hs _ hstep => ?_) Inv.init (machine ι α retryAfterReconnect).along_true h
  cases a with
  | call i event => exact hs.call hstep
  | run i answer =>
    obtain ⟨p, new, ret, heffect⟩ := run_effect hstep
    exact heffect.inv hs

/-- In every state that any number of threads can reach, whatever the attempts, the reconnects and
the waits come to, a call that has returned has its event stored exactly once, and a thread that is
inside `Reconnect` is the only one there, with no `try_insert` beside it. -/
theorem exec_exactlyOnce (retryAfterReconnect : α → Bool) {as : List (Action ι α)}
    (h : (machine ι α retryAfterReconnect).exec (machine ι α retryAfterReconnect).init as =
      some s) : ExactlyOnce s :=
  (exec_inv h).exactlyOnce

end Inv

/-- Two threads: the first insert is refused and the reconnect succeeds; the second thread waits for
it and gives up. -/
def refusedAndRetried : List (Action (Fin 2) Nat) :=
  List.append
    [.call 0 7, .run 0 {}, .run 0 {}, .run 0 { attempt := .refuses }, .run 0 {}, .run 0 {},
      .run 0 {}, .call 1 7, .run 1 {}, .run 1 {}, .run 1 {}, .run 1 {}, .run 0 {},
      .run 1 { giveUp := true }, .run 1 {}, .run 1 {}]
    (List.replicate 8 (.run 0 {}))

/-- The retry of the first thread stores its event, the second thread writes to the fallback. -/
theorem reconnect_exactlyOnce :
    ((machine (Fin 2) Nat fun _ => true).exec (machine (Fin 2) Nat fun _ => true).init
      refusedAndRetried).map (fun s => (s.stored, s.fallback, s.returned)) =
        some ([⟨0, 7⟩], [⟨1, 7⟩], [⟨1, 7⟩, ⟨0, 7⟩]) ∧
    ∀ s ∈ (machine (Fin 2) Nat fun _ => true).exec (machine (Fin 2) Nat fun _ => true).init
      refusedAndRetried, ExactlyOnce s :=
  ⟨by decide, fun _ hs => exec_exactlyOnce _ hs⟩

end Sqc.InsertWithFallback
