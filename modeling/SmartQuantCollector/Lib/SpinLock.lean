import SmartQuantCollector.Lib.Machine
import SmartQuantCollector.Lib.SlotPool

/-! # Spin locks

Any number of threads run sections, each under one of several locks. A lock is a flag: a thread
sets it with `test_and_set`, spinning while it finds it set, and clears it behind the section. The
data of a lock are only touched by sections that run under it.

A section is a program of single accesses (`Prog`), so that the accesses of all threads interleave.
`Inv` says that nothing of this shows: what the data of a lock will be when the section that runs
under it is over is what the sections entered so far give one after the other (`serial`). `entered`
records them, no step reads it; it keeps the order of the calls of each thread (`CallOrder`). -/

namespace SpinLock
open Concurrency

/-! ## Sections -/

/-- A program on shared data, access by access. An access fails where it would leave the memory
that there is. -/
inductive Prog (σ : Type*) where
  | done
  /-- An access, and what follows when it has left the data as they are then. -/
  | access (op : σ → Option σ) (next : σ → Prog σ)

namespace Prog

variable {σ : Type*}

/-- The program without interruption. -/
def run : Prog σ → σ → Option σ
  | .done, x => some x
  | .access op next, x => (op x).bind fun y => (next y).run y

/-- A single access. -/
def op (f : σ → Option σ) : Prog σ := .access f fun _ => .done

/-- A read that decides how to go on. -/
def read (next : σ → Prog σ) : Prog σ := .access some next

/-- An access outside the memory that there is. -/
def fail : Prog σ := .op fun _ => none

/-- One program after the other. -/
def andThen : Prog σ → Prog σ → Prog σ
  | .done, q => q
  | .access op next, q => .access op fun y => (next y).andThen q

@[simp] theorem run_done (x : σ) : (done : Prog σ).run x = some x := rfl

@[simp] theorem run_access (f : σ → Option σ) (next : σ → Prog σ) (x : σ) :
    (access f next).run x = (f x).bind fun y => (next y).run y := rfl

@[simp] theorem run_op (f : σ → Option σ) (x : σ) : (op f).run x = f x :=
  Option.bind_fun_some (f x)

@[simp] theorem run_read (next : σ → Prog σ) (x : σ) : (read next).run x = (next x).run x := rfl

@[simp] theorem run_fail (x : σ) : (fail : Prog σ).run x = none := rfl

@[simp] theorem run_andThen (p q : Prog σ) (x : σ) :
    (p.andThen q).run x = (p.run x).bind q.run := by
  induction p generalizing x with
  | done => rfl
  | access f next ih =>
    simp only [andThen, run_access, Option.bind_assoc]
    exact congrArg (f x).bind (funext fun y => ih y y)

theorem andThen_assoc (p q r : Prog σ) :
    p.andThen (q.andThen r) = (p.andThen q).andThen r := by
  induction p with
  | done => rfl
  | access f next ih =>
    simp only [andThen]
    exact congrArg (access f) (funext ih)

/-- Every access relates the data before it to the data behind it, wherever it is made. -/
def Along (R : σ → σ → Prop) : Prog σ → Prop
  | .done => True
  | .access op next => ∀ x y, op x = some y → R x y ∧ (next y).Along R

namespace Along

variable {R : σ → σ → Prop}

theorem done : (Prog.done : Prog σ).Along R := trivial

theorem op {f : σ → Option σ} (h : ∀ x y, f x = some y → R x y) : (Prog.op f).Along R :=
  fun x y hy => ⟨h x y hy, trivial⟩

theorem read [Std.Refl R] {next : σ → Prog σ} (h : ∀ x, (next x).Along R) :
    (Prog.read next).Along R := by
  intro x y hxy
  rw [← Option.some.inj hxy]
  exact ⟨Std.Refl.refl x, h x⟩

theorem fail : (Prog.fail : Prog σ).Along R := Along.op fun _ _ h => by cases h

theorem andThen {p q : Prog σ} (hp : p.Along R) (hq : q.Along R) : (p.andThen q).Along R := by
  induction p with
  | done => exact hq
  | access f next ih => exact fun x y hy => ⟨(hp x y hy).1, ih y (hp x y hy).2⟩

/-- What the accesses respect, the program respects. -/
theorem run [Std.Refl R] [IsTrans σ R] {p : Prog σ} (hp : p.Along R) {x y : σ}
    (h : p.run x = some y) : R x y := by
  induction p generalizing x with
  | done =>
    cases h
    exact Std.Refl.refl _
  | access f next ih =>
    obtain ⟨z, hz, h⟩ := Option.bind_eq_some_iff.mp h
    obtain ⟨hxz, hnext⟩ := hp x z hz
    exact IsTrans.trans _ _ _ hxz (ih z hnext h)

end Along

end Prog

/-! ## The machine -/

/-- Where a thread stands. -/
inductive Thread (κ χ σ : Type*) where
  | idle
  /-- Before the next `test_and_set` on the flag of `k`. -/
  | spinning (k : κ) (c : χ)
  /-- Under the lock `k`, with the rest of the section. -/
  | inside (k : κ) (rest : Prog σ)

/-- The lock a thread holds. -/
def Thread.lock {κ χ σ : Type*} : Thread κ χ σ → Option κ
  | .inside k _ => some k
  | .idle | .spinning .. => none

/-- The section a thread waits to enter. -/
def Thread.waiting {κ χ σ : Type*} : Thread κ χ σ → Option (κ × χ)
  | .spinning k c => some (k, c)
  | .idle | .inside .. => none

structure State (ι κ χ σ : Type*) where
  flag : κ → Bool
  shared : κ → σ
  threads : ι → Thread κ χ σ
  /-- The sections entered under each lock, in order, with their threads. -/
  entered : κ → List (ι × χ)

inductive Action (ι κ χ : Type*) where
  /-- Thread `i` calls the section `c` under the lock `k`. -/
  | call (i : ι) (k : κ) (c : χ)
  /-- The next access of thread `i`. -/
  | step (i : ι)

variable {ι κ χ σ : Type*} [DecidableEq ι] [DecidableEq κ]

namespace State

def setThread (s : State ι κ χ σ) (i : ι) (p : Thread κ χ σ) : State ι κ χ σ :=
  { s with threads := Function.update s.threads i p }

/-- A `test_and_set` that found the flag clear. -/
def enter (s : State ι κ χ σ) (i : ι) (k : κ) (c : χ) (p : Prog σ) : State ι κ χ σ where
  flag := Function.update s.flag k true
  shared := s.shared
  threads := Function.update s.threads i (.inside k p)
  entered := Function.update s.entered k (s.entered k ++ [(i, c)])

def write (s : State ι κ χ σ) (i : ι) (k : κ) (y : σ) (p : Prog σ) : State ι κ χ σ :=
  { s with shared := Function.update s.shared k y
           threads := Function.update s.threads i (.inside k p) }

def leave (s : State ι κ χ σ) (i : ι) (k : κ) : State ι κ χ σ :=
  { s with flag := Function.update s.flag k false
           threads := Function.update s.threads i .idle }

end State

def step (body : χ → Prog σ) (s : State ι κ χ σ) : Action ι κ χ → Option (State ι κ χ σ)
  | .call i k c =>
    match s.threads i with
    | .idle => some (s.setThread i (.spinning k c))
    | _ => none
  | .step i =>
    match s.threads i with
    | .idle => none
    | .spinning k c => if s.flag k then some s else some (s.enter i k c (body c))
    | .inside k .done => some (s.leave i k)
    | .inside k (.access op next) => (op (s.shared k)).map fun y => s.write i k y (next y)

def machine (ι : Type*) {κ χ σ : Type*} [DecidableEq ι] [DecidableEq κ] (body : χ → Prog σ)
    (start : κ → σ) : Machine (State ι κ χ σ) (Action ι κ χ) where
  init := ⟨fun _ => false, start, fun _ => .idle, fun _ => []⟩
  step := step body

/-- What a step does. -/
inductive Effect (body : χ → Prog σ) (s : State ι κ χ σ) :
    Action ι κ χ → State ι κ χ σ → Prop
  | call {i k c} : s.threads i = .idle → Effect body s (.call i k c) (s.setThread i (.spinning k c))
  | spin {i k c} : s.threads i = .spinning k c → s.flag k = true → Effect body s (.step i) s
  | enter {i k c} : s.threads i = .spinning k c → s.flag k = false →
    Effect body s (.step i) (s.enter i k c (body c))
  | write {i k op next y} : s.threads i = .inside k (.access op next) → op (s.shared k) = some y →
    Effect body s (.step i) (s.write i k y (next y))
  | leave {i k} : s.threads i = .inside k .done → Effect body s (.step i) (s.leave i k)

theorem effect_of_step {body : χ → Prog σ} {s t : State ι κ χ σ} {a : Action ι κ χ}
    (h : step body s a = some t) : Effect body s a t := by
  cases a with
  | call i k c =>
    simp only [step] at h
    split at h
    next hi =>
      cases h
      exact .call hi
    next => cases h
  | step i =>
    simp only [step] at h
    split at h
    next => cases h
    next k c hi =>
      split at h
      next hflag =>
        cases h
        exact .spin hi hflag
      next hflag =>
        cases h
        exact .enter hi (Bool.eq_false_iff.mpr hflag)
    next k hi =>
      cases h
      exact .leave hi
    next k op next hi =>
      obtain ⟨y, hy, rfl⟩ := Option.map_eq_some_iff.mp h
      exact .write hi hy

/-! ## The sections one after the other -/

/-- The data after the sections, each run without interruption. -/
def serial (body : χ → Prog σ) (x : σ) (cs : List (ι × χ)) : Option σ :=
  cs.foldlM (fun y c => (body c.2).run y) x

omit [DecidableEq ι] in
theorem serial_concat (body : χ → Prog σ) (x : σ) (cs : List (ι × χ)) (c : ι × χ) :
    serial body x (cs ++ [c]) = (serial body x cs).bind (body c.2).run := by
  rw [serial, List.foldlM_append]
  refine congrArg (serial body x cs).bind (funext fun y => ?_)
  exact Option.bind_fun_some _

structure Inv (body : χ → Prog σ) (start : κ → σ) (s : State ι κ χ σ) : Prop where
  exclusive : SlotPool.Exclusive s.flag fun i => (s.threads i).lock
  /-- The rest of a section that runs ends where the entered sections end. -/
  held : ∀ {i k rest}, s.threads i = .inside k rest →
    serial body (start k) (s.entered k) = rest.run (s.shared k)
  free : ∀ {k}, s.flag k = false → serial body (start k) (s.entered k) = some (s.shared k)

/-! ### Locks of the threads after an update -/

omit [DecidableEq κ] in
theorem lock_update (threads : ι → Thread κ χ σ) (i : ι) (p : Thread κ χ σ) :
    (fun j => (Function.update threads i p j).lock) =
      Function.update (fun j => (threads j).lock) i p.lock := by
  funext j
  rcases eq_or_ne j i with rfl | hj
  · rw [Function.update_self, Function.update_self]
  · rw [Function.update_of_ne hj, Function.update_of_ne hj]

omit [DecidableEq κ] in
/-- A thread that keeps its lock. -/
theorem lock_update_same {threads : ι → Thread κ χ σ} {i : ι} {p : Thread κ χ σ}
    (h : p.lock = (threads i).lock) :
    (fun j => (Function.update threads i p j).lock) = fun j => (threads j).lock := by
  rw [lock_update, h]
  exact Function.update_eq_self i fun j => (threads j).lock

namespace Inv

variable {body : χ → Prog σ} {start : κ → σ} {s t : State ι κ χ σ}

theorem init : Inv body start (machine ι body start).init where
  exclusive := .empty
  held h := by cases h
  free _ := rfl

omit [DecidableEq κ] in
theorem call (h : Inv body start s) {i : ι} {k : κ} {c : χ} (hi : s.threads i = .idle) :
    Inv body start (s.setThread i (.spinning k c)) where
  exclusive := by
    have hlock : (Thread.spinning k c : Thread κ χ σ).lock = (s.threads i).lock := by rw [hi]; rfl
    simp only [State.setThread]
    rw [lock_update_same hlock]
    exact h.exclusive
  held {j l rest} hj := by
    rcases eq_or_ne j i with rfl | hne
    · simp [State.setThread] at hj
    · simp only [State.setThread, Function.update_of_ne hne] at hj
      exact h.held hj
  free := h.free

theorem enter (h : Inv body start s) {i : ι} {k : κ} {c : χ} (hi : s.threads i = .spinning k c)
    (hk : s.flag k = false) : Inv body start (s.enter i k c (body c)) where
  exclusive := by
    have hnone : (s.threads i).lock = none := by rw [hi]; rfl
    simp only [State.enter]
    rw [lock_update]
    exact h.exclusive.take hnone hk
  held {j l rest} hj := by
    simp only [State.enter] at hj ⊢
    rcases eq_or_ne j i with rfl | hne
    · -- the data are those the sections before have left
      rw [Function.update_self] at hj
      cases hj
      rw [Function.update_self, serial_concat, h.free hk]
      rfl
    · rw [Function.update_of_ne hne] at hj
      have hl : l ≠ k := fun hl => h.exclusive.holds_ne hk j (by rw [hj, hl]; rfl)
      rw [Function.update_of_ne hl]
      exact h.held hj
  free {l} hl := by
    simp only [State.enter] at hl ⊢
    rcases eq_or_ne l k with rfl | hne
    · rw [Function.update_self] at hl
      cases hl
    · rw [Function.update_of_ne hne] at hl ⊢
      exact h.free hl

theorem write (h : Inv body start s) {i : ι} {k : κ} {op : σ → Option σ} {next : σ → Prog σ} {y : σ}
    (hi : s.threads i = .inside k (.access op next)) (hy : op (s.shared k) = some y) :
    Inv body start (s.write i k y (next y)) where
  exclusive := by
    have hlock : (Thread.inside k (next y) : Thread κ χ σ).lock = (s.threads i).lock := by
      rw [hi]; rfl
    simp only [State.write]
    rw [lock_update_same hlock]
    exact h.exclusive
  held {j l rest} hj := by
    simp only [State.write] at hj ⊢
    rcases eq_or_ne j i with rfl | hne
    · rw [Function.update_self] at hj
      cases hj
      rw [Function.update_self, h.held hi, Prog.run_access, hy, Option.bind_some]
    · rw [Function.update_of_ne hne] at hj
      have hl : l ≠ k := fun hl =>
        hne (h.exclusive.unique (k := k) (by rw [hj, hl]; rfl) (by rw [hi]; rfl))
      rw [Function.update_of_ne hl]
      exact h.held hj
  free {l} hl := by
    have hne : l ≠ k := fun hne => h.exclusive.holds_ne hl i (by rw [hi, hne]; rfl)
    simp only [State.write]
    rw [Function.update_of_ne hne]
    exact h.free hl

theorem leave (h : Inv body start s) {i : ι} {k : κ} (hi : s.threads i = .inside k .done) :
    Inv body start (s.leave i k) where
  exclusive := by
    simp only [State.leave]
    rw [lock_update]
    exact h.exclusive.give (by rw [hi]; rfl)
  held {j l rest} hj := by
    simp only [State.leave] at hj ⊢
    rcases eq_or_ne j i with rfl | hne
    · rw [Function.update_self] at hj
      cases hj
    · rw [Function.update_of_ne hne] at hj
      exact h.held hj
  free {l} hl := by
    simp only [State.leave] at hl ⊢
    rcases eq_or_ne l k with rfl | hne
    · exact (h.held hi).trans (Prog.run_done _)
    · rw [Function.update_of_ne hne] at hl
      exact h.free hl

theorem effect (h : Inv body start s) {a : Action ι κ χ} (ha : Effect body s a t) :
    Inv body start t := by
  cases ha with
  | call hi => exact h.call hi
  | spin _ _ => exact h
  | enter hi hk => exact h.enter hi hk
  | write hi hy => exact h.write hi hy
  | leave hi => exact h.leave hi

end Inv

/-- What every section still has to do respects `R`. -/
def RestsAlong (R : σ → σ → Prop) (s : State ι κ χ σ) : Prop :=
  ∀ i k rest, s.threads i = .inside k rest → rest.Along R

omit [DecidableEq κ] in
theorem RestsAlong.update {R : σ → σ → Prop} {s t : State ι κ χ σ} (h : RestsAlong R s) {i : ι}
    {p : Thread κ χ σ} (ht : t.threads = Function.update s.threads i p)
    (hp : ∀ k rest, p = .inside k rest → rest.Along R) : RestsAlong R t := by
  intro j k rest hj
  rw [ht] at hj
  rcases eq_or_ne j i with rfl | hne
  · rw [Function.update_self] at hj
    exact hp k rest hj
  · rw [Function.update_of_ne hne] at hj
    exact h j k rest hj

theorem RestsAlong.effect {R : σ → σ → Prop} {body : χ → Prog σ} {s t : State ι κ χ σ}
    (h : RestsAlong R s) (hbody : ∀ c, (body c).Along R) {a : Action ι κ χ}
    (ha : Effect body s a t) : RestsAlong R t := by
  cases ha with
  | call _ => exact h.update rfl fun _ _ hp => by cases hp
  | spin _ _ => exact h
  | @enter i k c _ _ =>
    refine h.update rfl fun _ _ hp => ?_
    cases hp
    exact hbody c
  | write hi hy =>
    refine h.update rfl fun _ _ hp => ?_
    cases hp
    exact (h _ _ _ hi _ _ hy).2
  | leave _ => exact h.update rfl fun _ _ hp => by cases hp

theorem exec_inv {body : χ → Prog σ} {start : κ → σ} {as : List (Action ι κ χ)}
    {s : State ι κ χ σ} (h : (machine ι body start).exec (machine ι body start).init as = some s) :
    Inv body start s :=
  (machine ι body start).exec_invariant (C := fun _ _ => True)
    (fun _ _ _ hI _ hstep => hI.effect (effect_of_step hstep)) Inv.init
    (Machine.along_true _) h

theorem exec_restsAlong {R : σ → σ → Prop} {body : χ → Prog σ} (hbody : ∀ c, (body c).Along R)
    {start : κ → σ} {as : List (Action ι κ χ)} {s : State ι κ χ σ}
    (h : (machine ι body start).exec (machine ι body start).init as = some s) : RestsAlong R s :=
  (machine ι body start).exec_invariant (C := fun _ _ => True)
    (fun _ _ _ hI _ hstep => RestsAlong.effect hI hbody (effect_of_step hstep))
    (fun _ _ _ h => by cases h) (Machine.along_true _) h

/-- At any moment the data of a lock are on the way to what the entered sections give. -/
theorem exec_shared {R : σ → σ → Prop} [Std.Refl R] [IsTrans σ R] {body : χ → Prog σ}
    (hbody : ∀ c, (body c).Along R) {start : κ → σ} {as : List (Action ι κ χ)} {s : State ι κ χ σ}
    (h : (machine ι body start).exec (machine ι body start).init as = some s) {k : κ} {x : σ}
    (hx : serial body (start k) (s.entered k) = some x) : R (s.shared k) x := by
  have hinv := exec_inv h
  cases hflag : s.flag k with
  | false =>
    cases (hinv.free hflag).symm.trans hx
    exact Std.Refl.refl _
  | true =>
    obtain ⟨i, hi⟩ := hinv.exclusive.inUse_iff.mp hflag
    cases hthread : s.threads i with
    | idle | spinning _ _ =>
      rw [hthread] at hi
      cases hi
    | inside l rest =>
      rw [hthread] at hi
      cases hi
      exact (exec_restsAlong hbody h i k rest hthread).run ((hinv.held hthread).symm.trans hx)

/-! ## Leaving -/

/-- A section that would run through without interruption is left by its own thread, with what it
owes. -/
theorem exec_leave {body : χ → Prog σ} {start : κ → σ} {s : State ι κ χ σ} {i : ι} {k : κ}
    {rest : Prog σ} (hi : s.threads i = .inside k rest) {y : σ}
    (hy : rest.run (s.shared k) = some y) :
    ∃ n t, (machine ι body start).exec s (List.replicate n (.step i)) = some t ∧
      t.threads i = .idle ∧ t.flag k = false ∧ t.shared k = y := by
  induction rest generalizing s with
  | done =>
    cases hy
    have hstep : step body s (.step i) = some (s.leave i k) := by simp only [step, hi]
    refine ⟨1, s.leave i k, (Machine.exec_singleton ..).trans hstep, ?_, ?_, rfl⟩
    · exact Function.update_self ..
    · exact Function.update_self ..
  | access op next ih =>
    obtain ⟨z, hz, hy⟩ := Option.bind_eq_some_iff.mp hy
    have hstep : step body s (.step i) = some (s.write i k z (next z)) := by
      simp only [step, hi, hz, Option.map_some]
    have hshared : (s.write i k z (next z)).shared k = z := Function.update_self ..
    obtain ⟨n, t, ht, hrest⟩ := ih z (s := s.write i k z (next z)) (Function.update_self ..)
      (by rw [hshared]; exact hy)
    exact ⟨n + 1, t, (Machine.exec_cons_iff _).mpr ⟨_, hstep, ht⟩, hrest⟩

/-! ## The order of the sections -/

/-- The calls of thread `i` for the lock `k`, in the order in which it makes them. -/
def calls (as : List (Action ι κ χ)) (i : ι) (k : κ) : List χ :=
  as.filterMap fun
    | .call j l c => if j = i ∧ l = k then some c else none
    | .step _ => none

/-- The sections that thread `i` has entered under `k`. -/
def sections (s : State ι κ χ σ) (i : ι) (k : κ) : List χ :=
  (s.entered k).filterMap fun c => if c.1 = i then some c.2 else none

/-- The section that thread `i` waits to enter under `k`. -/
def pending (s : State ι κ χ σ) (i : ι) (k : κ) : List χ :=
  match s.threads i with
  | .spinning l c => if l = k then [c] else []
  | .idle | .inside .. => []

/-- Under each lock a thread enters its sections in the order of its calls, none twice and none left
out but the one it waits for. -/
def CallOrder (as : List (Action ι κ χ)) (s : State ι κ χ σ) : Prop :=
  ∀ i k, sections s i k ++ pending s i k = calls as i k

theorem calls_concat (as : List (Action ι κ χ)) (a : Action ι κ χ) (i : ι) (k : κ) :
    calls (as ++ [a]) i k = calls as i k ++ calls [a] i k := List.filterMap_append

/-- An access of a thread that does not enter a section. -/
theorem CallOrder.of_step {as : List (Action ι κ χ)} {s t : State ι κ χ σ} {i : ι}
    (h : CallOrder as s) (hentered : t.entered = s.entered)
    (hpending : ∀ j k, pending t j k = pending s j k) : CallOrder (as ++ [.step i]) t := by
  intro j k
  rw [sections, hentered, hpending, calls_concat]
  exact (h j k).trans (List.append_nil _).symm

/-- What a thread waits for is not changed by the others. -/
theorem pending_update {s t : State ι κ χ σ} {i : ι} {p : Thread κ χ σ}
    (ht : t.threads = Function.update s.threads i p) (hi : (s.threads i).waiting = none)
    (hp : p.waiting = none) (j : ι) (k : κ) : pending t j k = pending s j k := by
  rcases eq_or_ne j i with rfl | hj
  · have hnil : ∀ {u : State ι κ χ σ}, (u.threads j).waiting = none → pending u j k = [] := by
      intro u hu
      cases hthread : u.threads j with
      | spinning l c => simp [hthread, Thread.waiting] at hu
      | _ => simp only [pending, hthread]
    rw [hnil hi, hnil (by rw [ht, Function.update_self]; exact hp)]
  · simp only [pending, ht, Function.update_of_ne hj]

namespace CallOrder

variable {body : χ → Prog σ} {s t : State ι κ χ σ} {as : List (Action ι κ χ)}

theorem init (body : χ → Prog σ) (start : κ → σ) : CallOrder [] (machine ι body start).init :=
  fun _ _ => rfl

theorem call (h : CallOrder as s) {i : ι} {k : κ} {c : χ} (hi : s.threads i = .idle) :
    CallOrder (as ++ [.call i k c]) (s.setThread i (.spinning k c)) := by
  intro j l
  rw [calls_concat, ← h j l]
  rcases eq_or_ne j i with rfl | hj
  · have hbefore : pending s j l = [] := by simp only [pending, hi]
    rw [hbefore, List.append_nil]
    refine congrArg (sections s j l ++ ·) ?_
    by_cases hkl : k = l <;> simp [pending, State.setThread, calls, hkl]
  · have hcalls : calls [.call i k c] j l = ([] : List χ) := by simp [calls, hj.symm]
    rw [hcalls, List.append_nil]
    refine congrArg (sections s j l ++ ·) ?_
    simp only [pending, State.setThread, Function.update_of_ne hj]

theorem enter (h : CallOrder as s) {i : ι} {k : κ} {c : χ} (hi : s.threads i = .spinning k c) :
    CallOrder (as ++ [.step i]) (s.enter i k c (body c)) := by
  intro j l
  rw [calls_concat, show calls [.step i] j l = ([] : List χ) from rfl, List.append_nil, ← h j l]
  rcases eq_or_ne j i with rfl | hj
  · have hbehind : pending (s.enter j k c (body c)) j l = [] := by
      simp only [pending, State.enter, Function.update_self]
    rw [hbehind, List.append_nil]
    rcases eq_or_ne l k with rfl | hl
    · simp [sections, State.enter, pending, hi]
    · simp [sections, State.enter, pending, hi, Function.update_of_ne hl, hl.symm]
  · have hpending : pending (s.enter i k c (body c)) j l = pending s j l := by
      simp only [pending, State.enter, Function.update_of_ne hj]
    rw [hpending]
    refine congrArg (· ++ pending s j l) ?_
    rcases eq_or_ne l k with rfl | hl
    · simp [sections, State.enter, hj.symm]
    · simp only [sections, State.enter, Function.update_of_ne hl]

theorem effect (h : CallOrder as s) {a : Action ι κ χ} (ha : Effect body s a t) :
    CallOrder (as ++ [a]) t := by
  cases ha with
  | call hi => exact h.call hi
  | spin _ _ => exact h.of_step rfl fun _ _ => rfl
  | enter hi _ => exact h.enter hi
  | write hi _ => exact h.of_step rfl (pending_update rfl (by rw [hi]; rfl) rfl)
  | leave hi => exact h.of_step rfl (pending_update rfl (by rw [hi]; rfl) rfl)

end CallOrder

theorem exec_callOrder {body : χ → Prog σ} {start : κ → σ} {as : List (Action ι κ χ)}
    {s : State ι κ χ σ} (h : (machine ι body start).exec (machine ι body start).init as = some s) :
    CallOrder as s :=
  (machine ι body start).exec_history (C := fun _ _ => True) (R := CallOrder)
    (fun _ _ _ _ hR _ hstep => hR.effect (effect_of_step hstep)) (.init body start)
    (Machine.along_true _) h

end SpinLock
