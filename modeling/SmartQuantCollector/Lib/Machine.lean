import Mathlib.Data.List.Forall2
import Mathlib.Logic.Function.Iterate

/-! # Labelled machines

A machine is an initial state and a step function: `step s a` is the state after action `a`, or
`none` when `a` is not enabled in `s`. Nondeterminism (which thread moves, what the environment
answers) is carried by the actions, so a schedule is a list of actions and a run is a computation.

`Along C` says that every step of a schedule satisfies a condition `C` on the action and on the
state before it. The rules below turn a step lemma into a statement about every run: an invariant
kept by the steps satisfying `C` holds in every state that such a run reaches
(`exec_invariant`; `exec_history` for a relation to the schedule so far), and when the steps
satisfying `C` are just those that keep a property, the runs that keep it are just those along which
`C` holds (`exec_iff`; `exec_iff_along` for runs that satisfy another condition; `exec_always_iff`
for a property of the states on the way). `trace` lists the actions with the states they are taken
in, for statements on what a run has seen (`exec_trace`, `trace_invariant`). `exec_reaches` is for
states from which a run can get somewhere, and `exec_simulates` for a machine whose steps are runs
of another one. -/

namespace Concurrency

structure Machine (σ α : Type*) where
  init : σ
  step : σ → α → Option σ

namespace Machine

variable {σ α : Type*} (M : Machine σ α) {C D : σ → α → Prop} {I : σ → Prop}

/-- The state a schedule leads to, `none` when one of its actions is not enabled. -/
def exec : σ → List α → Option σ
  | s, [] => some s
  | s, a :: as => (M.step s a).bind (exec · as)

/-- Every step of the schedule satisfies `C`. -/
def Along (C : σ → α → Prop) : σ → List α → Prop
  | _, [] => True
  | s, a :: as => C s a ∧ ∀ t ∈ M.step s a, Along C t as

@[simp] theorem exec_nil (s : σ) : M.exec s [] = some s := rfl

theorem exec_cons (s : σ) (a : α) (as : List α) :
    M.exec s (a :: as) = (M.step s a).bind (M.exec · as) := rfl

theorem exec_cons_iff {s u : σ} {a : α} {as : List α} :
    M.exec s (a :: as) = some u ↔ ∃ t, M.step s a = some t ∧ M.exec t as = some u := by
  rw [exec_cons, Option.bind_eq_some_iff]

theorem exec_singleton (s : σ) (a : α) : M.exec s [a] = M.step s a := by
  rw [exec_cons]
  cases M.step s a <;> rfl

theorem exec_append (s : σ) (as bs : List α) :
    M.exec s (as ++ bs) = (M.exec s as).bind (M.exec · bs) := by
  induction as generalizing s with
  | nil => rfl
  | cons a as ih =>
    simp only [List.cons_append, exec_cons, Option.bind_assoc]
    congr 1
    exact funext fun t => ih t

/-- Two schedules in a row. -/
theorem exec_trans {s t u : σ} {as bs : List α} (h : M.exec s as = some t)
    (h' : M.exec t bs = some u) : M.exec s (as ++ bs) = some u := by
  rw [exec_append, h]; exact h'

/-- An action that is always enabled, repeated. -/
theorem exec_replicate {a : α} {f : σ → σ} (h : ∀ s, M.step s a = some (f s)) (n : Nat) (s : σ) :
    M.exec s (List.replicate n a) = some (f^[n] s) := by
  induction n generalizing s with
  | zero => rfl
  | succ n ih =>
    rw [List.replicate_succ, exec_cons, h, Function.iterate_succ_apply]
    exact ih (f s)

theorem along_cons {s t : σ} {a : α} {as : List α} (h : M.Along C s (a :: as))
    (hs : M.step s a = some t) : C s a ∧ M.Along C t as := ⟨h.1, h.2 t hs⟩

theorem along_append {s : σ} {as bs : List α} :
    M.Along C s (as ++ bs) ↔ M.Along C s as ∧ ∀ t ∈ M.exec s as, M.Along C t bs := by
  induction as generalizing s with
  | nil => simp [Along]
  | cons a as ih =>
    simp only [List.cons_append, Along, ih, exec_cons, Option.mem_def, Option.bind_eq_some_iff]
    constructor
    · rintro ⟨ha, h⟩
      exact ⟨⟨ha, fun t ht => (h t ht).1⟩, fun u ⟨t, ht, hu⟩ => (h t ht).2 u hu⟩
    · rintro ⟨⟨ha, h⟩, h'⟩
      exact ⟨ha, fun t ht => ⟨h t ht, fun u hu => h' u ⟨t, ht, hu⟩⟩⟩

theorem along_of_forall {D : α → Prop} {s : σ} {as : List α} (h : ∀ a ∈ as, D a) :
    M.Along (fun _ => D) s as := by
  induction as generalizing s with
  | nil => trivial
  | cons a as ih =>
    rw [List.forall_mem_cons] at h
    exact ⟨h.1, fun _ _ => ih h.2⟩

theorem along_mono (hCD : ∀ s a, C s a → D s a) {s : σ} {as : List α} (h : M.Along C s as) :
    M.Along D s as := by
  induction as generalizing s with
  | nil => trivial
  | cons a as ih => exact ⟨hCD s a h.1, fun t ht => ih (h.2 t ht)⟩

theorem along_true {s : σ} {as : List α} : M.Along (fun _ _ => True) s as := by
  induction as generalizing s with
  | nil => trivial
  | cons a as ih => exact ⟨trivial, fun _ _ => ih⟩

/-- Two conditions that agree wherever an invariant holds. -/
theorem along_congr (hstep : ∀ s a t, I s → M.step s a = some t → I t)
    (hCD : ∀ s a, I s → (C s a ↔ D s a)) {s : σ} {as : List α} (hI : I s) :
    M.Along C s as ↔ M.Along D s as := by
  induction as generalizing s with
  | nil => exact Iff.rfl
  | cons a as ih =>
    refine and_congr (hCD s a hI) (forall₂_congr fun t ht => ?_)
    exact ih (hstep s a t hI ht)

/-- The run rule: an invariant kept by every step that satisfies `C` holds at the end of every
schedule whose steps satisfy `C`. -/
theorem exec_invariant
    (hstep : ∀ s a t, I s → C s a → M.step s a = some t → I t)
    {s t : σ} {as : List α} (hI : I s) (hC : M.Along C s as) (h : M.exec s as = some t) :
    I t := by
  induction as generalizing s with
  | nil => cases h; exact hI
  | cons a as ih =>
    obtain ⟨u, hu, h⟩ := M.exec_cons_iff.mp h
    obtain ⟨ha, hC⟩ := M.along_cons hC hu
    exact ih (hstep s a u hI ha hu) hC h

/-- The run rule for a relation between the state and the schedule that has led to it. -/
theorem exec_history {R : List α → σ → Prop}
    (hstep : ∀ as s a t, R as s → C s a → M.step s a = some t → R (as ++ [a]) t)
    {s t : σ} {as bs : List α} (hR : R as s) (hC : M.Along C s bs) (h : M.exec s bs = some t) :
    R (as ++ bs) t := by
  induction bs generalizing s as with
  | nil =>
    cases h
    rwa [List.append_nil]
  | cons b bs ih =>
    obtain ⟨u, hu, h⟩ := M.exec_cons_iff.mp h
    obtain ⟨hb, hC⟩ := M.along_cons hC hu
    have := ih (hstep as s b u hR hb hu) hC h
    rwa [List.append_assoc] at this

/-- The steps of a schedule: the state before and the action. -/
def trace : σ → List α → List (σ × α)
  | _, [] => []
  | s, a :: as => (s, a) :: (M.step s a).elim [] (trace · as)

theorem trace_cons {s t : σ} {a : α} {as : List α} (h : M.step s a = some t) :
    M.trace s (a :: as) = (s, a) :: M.trace t as := by
  rw [trace, h, Option.elim_some]

/-- An invariant holds in every state that a step of the schedule is taken in. -/
theorem trace_invariant (hstep : ∀ s a t, I s → M.step s a = some t → I t) {s : σ} {as : List α}
    (hI : I s) : ∀ p ∈ M.trace s as, I p.1 := by
  induction as generalizing s with
  | nil => exact List.forall_mem_nil _
  | cons a as ih =>
    rw [trace, List.forall_mem_cons]
    refine ⟨hI, ?_⟩
    cases hs : M.step s a with
    | none => exact List.forall_mem_nil _
    | some t => exact ih (hstep s a t hI hs)

/-- The run rule for a relation between the state and the steps that have led to it. -/
theorem exec_trace {R : List (σ × α) → σ → Prop}
    (hstep : ∀ tr s a t, R tr s → C s a → M.step s a = some t → R (tr ++ [(s, a)]) t)
    {tr : List (σ × α)} {s t : σ} {as : List α} (hR : R tr s) (hC : M.Along C s as)
    (h : M.exec s as = some t) : R (tr ++ M.trace s as) t := by
  induction as generalizing tr s with
  | nil =>
    cases h
    rwa [trace, List.append_nil]
  | cons a as ih =>
    obtain ⟨u, hu, h⟩ := M.exec_cons_iff.mp h
    obtain ⟨ha, hC⟩ := M.along_cons hC hu
    have := ih (hstep tr s a u hR ha hu) hC h
    rwa [M.trace_cons hu, List.append_cons]

/-- Schedules whose actions are related have one result, when related actions that satisfy `C` do
the same. -/
theorem exec_congr {R : α → α → Prop}
    (hstep : ∀ {s a b}, R a b → C s a → C s b → M.step s a = M.step s b)
    {s : σ} {as bs : List α} (hR : List.Forall₂ R as bs) (has : M.Along C s as)
    (hbs : M.Along C s bs) : M.exec s as = M.exec s bs := by
  induction hR generalizing s with
  | nil => rfl
  | @cons a b as bs hab _ ih =>
    have hsame := hstep hab has.1 hbs.1
    rw [exec_cons, exec_cons, hsame]
    cases ht : M.step s b with
    | none => rfl
    | some t => exact ih (has.2 t (hsame.trans ht)) (hbs.2 t ht)

/-- The run rule for machines that must not get stuck: when every step that satisfies `C` is enabled
and keeps the invariant, so is every schedule whose steps satisfy `C`. -/
theorem exec_total
    (hstep : ∀ s a, I s → C s a → ∃ t, M.step s a = some t ∧ I t)
    {s : σ} {as : List α} (hI : I s) (hC : M.Along C s as) : ∃ t, M.exec s as = some t ∧ I t := by
  induction as generalizing s with
  | nil => exact ⟨s, rfl, hI⟩
  | cons a as ih =>
    obtain ⟨t, ht, hIt⟩ := hstep s a hI hC.1
    obtain ⟨u, hu, hIu⟩ := ih hIt (hC.2 t ht)
    exact ⟨u, M.exec_cons_iff.mpr ⟨t, ht, hu⟩, hIu⟩

/-- The exact form of `exec_total`: when an action is enabled and keeps the invariant just in case
it satisfies `C`, a schedule can be carried out with the invariant all along just in case all its
steps satisfy `C`. -/
theorem exec_total_iff (hstep : ∀ s a, I s → (C s a ↔ ∃ t, M.step s a = some t ∧ I t))
    {s : σ} {as : List α} (hI : I s) :
    (∀ bs, bs <+: as → ∃ t, M.exec s bs = some t ∧ I t) ↔ M.Along C s as := by
  induction as generalizing s with
  | nil =>
    refine iff_of_true (fun bs hbs => ?_) trivial
    rw [List.prefix_nil.mp hbs]
    exact ⟨s, rfl, hI⟩
  | cons a as ih =>
    constructor
    · intro h
      obtain ⟨t, ht, hIt⟩ := h [a] (List.prefix_append [a] as)
      rw [exec_singleton] at ht
      refine ⟨(hstep s a hI).mpr ⟨t, ht, hIt⟩, fun u hu => ?_⟩
      cases ht.symm.trans hu
      refine (ih hIt).mp fun bs hbs => ?_
      obtain ⟨u, hu, hIu⟩ := h (a :: bs) (List.prefix_cons_inj a |>.mpr hbs)
      obtain ⟨t', ht', hu⟩ := M.exec_cons_iff.mp hu
      cases ht.symm.trans ht'
      exact ⟨u, hu, hIu⟩
    · rintro ⟨ha, has⟩ bs hbs
      cases bs with
      | nil => exact ⟨s, rfl, hI⟩
      | cons b bs =>
        obtain ⟨rfl, htail⟩ := List.cons_prefix_cons.mp hbs
        obtain ⟨t, ht, hIt⟩ := (hstep s b hI).mp ha
        obtain ⟨u, hu, hIu⟩ := (ih hIt).mpr (has t ht) bs htail
        exact ⟨u, M.exec_cons_iff.mpr ⟨t, ht, hu⟩, hIu⟩

/-- The progress rule: while the goal is not reached, some action keeps the invariant and brings the
measure down; then some schedule leads to the goal. -/
theorem exec_reaches {G : σ → Prop} (m : σ → Nat)
    (hstep : ∀ s, I s → ¬ G s → ∃ a t, M.step s a = some t ∧ I t ∧ m t < m s)
    {s : σ} (hI : I s) : ∃ as t, M.exec s as = some t ∧ I t ∧ G t := by
  induction hm : m s using Nat.strongRecOn generalizing s with
  | ind n ih =>
    by_cases hG : G s
    · exact ⟨[], s, rfl, hI, hG⟩
    · obtain ⟨a, t, ht, hIt, hlt⟩ := hstep s hI hG
      obtain ⟨as, u, hu, hIu, hGu⟩ := ih (m t) (hm ▸ hlt) hIt rfl
      exact ⟨a :: as, u, M.exec_cons_iff.mpr ⟨t, ht, hu⟩, hIu, hGu⟩

/-- The exact run rule: when the steps that satisfy `D` keep `Q` just in case they satisfy `C`, a
run whose steps satisfy `D` keeps `Q` just in case they all satisfy `C`. -/
theorem exec_iff_along {Q : σ → Prop}
    (hstep : ∀ s a t, I s → D s a → M.step s a = some t → I t)
    (hQ : ∀ s a t, I s → D s a → M.step s a = some t → (Q t ↔ Q s ∧ C s a))
    {s t : σ} {as : List α} (hI : I s) (hD : M.Along D s as) (h : M.exec s as = some t) :
    Q t ↔ Q s ∧ M.Along C s as := by
  induction as generalizing s with
  | nil =>
    cases h
    exact ⟨fun hs => ⟨hs, trivial⟩, And.left⟩
  | cons a as ih =>
    obtain ⟨u, hu, h⟩ := M.exec_cons_iff.mp h
    obtain ⟨hDa, hD⟩ := M.along_cons hD hu
    rw [ih (hstep s a u hI hDa hu) hD h, hQ s a u hI hDa hu]
    constructor
    · rintro ⟨⟨hs, ha⟩, has⟩
      exact ⟨hs, ha, fun v hv => by cases hu.symm.trans hv; exact has⟩
    · rintro ⟨hs, hC⟩
      obtain ⟨ha, has⟩ := M.along_cons hC hu
      exact ⟨⟨hs, ha⟩, has⟩

/-- The exact run rule for all runs. -/
theorem exec_iff {Q : σ → Prop}
    (hstep : ∀ s a t, I s → M.step s a = some t → I t)
    (hQ : ∀ s a t, I s → M.step s a = some t → (Q t ↔ Q s ∧ C s a))
    {s t : σ} {as : List α} (hI : I s) (h : M.exec s as = some t) :
    Q t ↔ Q s ∧ M.Along C s as :=
  M.exec_iff_along (fun s a t hs _ => hstep s a t hs) (fun s a t hs _ => hQ s a t hs) hI
    M.along_true h

/-- The exact run rule for a property of all states on the way: when a step keeps `Q` just in case
it satisfies `C`, and those steps keep the invariant, `Q` holds all along just in case `C` does. -/
theorem exec_always_iff {Q : σ → Prop} (hIQ : ∀ s, I s → Q s)
    (hQ : ∀ s a t, I s → D s a → M.step s a = some t → (Q t ↔ C s a))
    (hstep : ∀ s a t, I s → D s a → C s a → M.step s a = some t → I t)
    {s t : σ} {as : List α} (hI : I s) (hD : M.Along D s as) (h : M.exec s as = some t) :
    (∀ bs, bs <+: as → ∀ u, M.exec s bs = some u → Q u) ↔ M.Along C s as := by
  induction as generalizing s with
  | nil =>
    refine iff_of_true (fun bs hbs u hu => ?_) trivial
    rw [List.prefix_nil.mp hbs] at hu
    cases hu
    exact hIQ s hI
  | cons a as ih =>
    obtain ⟨v, hv, hrest⟩ := M.exec_cons_iff.mp h
    obtain ⟨hDa, hDas⟩ := M.along_cons hD hv
    constructor
    · intro hall
      have ha : C s a := (hQ s a v hI hDa hv).mp
        (hall [a] (List.prefix_append [a] as) v ((M.exec_singleton s a).trans hv))
      refine ⟨ha, fun u hu => ?_⟩
      cases hv.symm.trans hu
      refine (ih (hstep s a v hI hDa ha hv) hDas hrest).mp fun bs hbs u hu => ?_
      exact hall (a :: bs) (List.prefix_cons_inj a |>.mpr hbs) u (M.exec_cons_iff.mpr ⟨v, hv, hu⟩)
    · intro hC bs hbs u hu
      obtain ⟨ha, has⟩ := M.along_cons hC hv
      cases bs with
      | nil =>
        cases hu
        exact hIQ s hI
      | cons b bs =>
        obtain ⟨rfl, htail⟩ := List.cons_prefix_cons.mp hbs
        obtain ⟨v', hv', hu⟩ := M.exec_cons_iff.mp hu
        cases hv.symm.trans hv'
        exact (ih (hstep s b v hI hDa ha hv) hDas hrest).mpr has bs htail u hu

/-- The simulation rule: when every step is matched by a run of the other machine, every run is. -/
theorem exec_simulates {τ β : Type*} {N : Machine τ β} {R : σ → τ → Prop}
    (hstep : ∀ {s a t u}, R s u → M.step s a = some t → ∃ bs v, N.exec u bs = some v ∧ R t v)
    {s t : σ} {u : τ} {as : List α} (hR : R s u) (h : M.exec s as = some t) :
    ∃ bs v, N.exec u bs = some v ∧ R t v := by
  induction as generalizing s u with
  | nil =>
    cases h
    exact ⟨[], u, rfl, hR⟩
  | cons a as ih =>
    obtain ⟨s', hs', h⟩ := M.exec_cons_iff.mp h
    obtain ⟨bs, v, hv, hR⟩ := hstep hR hs'
    obtain ⟨cs, w, hw, hR⟩ := ih hR h
    exact ⟨bs ++ cs, w, N.exec_trans hv hw, hR⟩

instance decidableAlong [∀ s a, Decidable (C s a)] :
    ∀ (s : σ) (as : List α), Decidable (M.Along C s as)
  | _, [] => isTrue trivial
  | s, a :: as =>
    match h : M.step s a with
    | none => decidable_of_iff (C s a) ⟨fun hc => ⟨hc, by simp [h]⟩, And.left⟩
    | some t =>
      have := decidableAlong t as
      decidable_of_iff (C s a ∧ M.Along C t as)
        ⟨fun hc => ⟨hc.1, fun u hu => by cases h.symm.trans hu; exact hc.2⟩,
          fun hc => ⟨hc.1, hc.2 t h⟩⟩

end Machine

end Concurrency
