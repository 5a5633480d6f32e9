import SmartQuantCollector.Lib.Fallible

/-! # Loops that may throw

Programs over a state that stays as it is when an exception is thrown, with rules for the loop
`forM`. An invariant kept by every body is kept by the loop, whether it ends or throws
(`Keeps.forM`); what one body establishes and the others keep holds once the loop has ended
(`Establishes.forM`). A loop over a larger state is a loop over a part of it when its bodies are
(`Erases.forM`). And a loop either runs all its bodies or stops at the first one that throws, with
the earlier ones done (`forM_outcome`).

Nested loops are one loop over a list (`forM_flatMap`, `forM_filter`), in any monad. -/

namespace FallibleLoop
open Fallible

/-! ## The list of a loop -/

section

variable {m : Type → Type} [Monad m] {α β : Type}

theorem forM_congr {l : List α} {f g : α → m PUnit} (h : ∀ a ∈ l, f a = g a) :
    forM l f = forM l g := by
  induction l with
  | nil => rfl
  | cons a l ih =>
    rw [List.forM_cons, List.forM_cons, h a List.mem_cons_self,
      ih fun b hb => h b (List.mem_cons_of_mem a hb)]

variable [LawfulMonad m]

theorem forM_flatMap (l : List α) (f : α → List β) (g : β → m PUnit) :
    forM (l.flatMap f) g = forM l fun a => forM (f a) g := by
  induction l with
  | nil => rfl
  | cons a l ih => rw [List.flatMap_cons, List.forM_append, List.forM_cons, ih]

theorem forM_filter (l : List α) (p : α → Bool) (f : α → m PUnit) :
    forM (l.filter p) f = forM l fun a => if p a = true then f a else pure ⟨⟩ := by
  induction l with
  | nil => rfl
  | cons a l ih =>
    rw [List.forM_cons, ← ih, List.filter_cons]
    split
    · exact List.forM_cons
    · rw [pure_bind]

end

abbrev Prog (ε σ : Type) := ProgT Id ε σ

variable {ε σ τ α β : Type}

theorem ok_of_bind_ok {x : Prog ε σ α} {f : α → Prog ε σ β} {s t : σ} {b : β}
    (h : runFrom (x >>= f) s = (.ok b, t)) :
    ∃ a u, runFrom x s = (.ok a, u) ∧ runFrom (f a) u = (.ok b, t) := by
  rw [runFrom_bind] at h
  cases hx : runFrom x s with
  | mk r u =>
    rw [hx] at h
    cases r with
    | ok a => exact ⟨a, u, rfl, h⟩
    | error e => cases h

/-! ## Invariants -/

/-- The program keeps `P`, also when it throws. -/
def Keeps (P : σ → Prop) (m : Prog ε σ α) : Prop := ∀ s, P s → P (runFrom m s).2

namespace Keeps

variable {P : σ → Prop}

protected theorem pure (a : α) : Keeps P (pure a : Prog ε σ α) := fun _ h => h

protected theorem bind {m : Prog ε σ α} {f : α → Prog ε σ β} (hm : Keeps P m)
    (hf : ∀ a, Keeps P (f a)) : Keeps P (m >>= f) := by
  intro s hs
  have hm := hm s hs
  rw [runFrom_bind]
  cases h : runFrom m s with
  | mk r t =>
    rw [h] at hm
    cases r with
    | ok a => exact hf a t hm
    | error e => exact hm

protected theorem forM {l : List α} {f : α → Prog ε σ PUnit} (h : ∀ a ∈ l, Keeps P (f a)) :
    Keeps P (forM l f) := by
  induction l with
  | nil => exact Keeps.pure PUnit.unit
  | cons a l ih =>
    rw [List.forM_cons]
    exact Keeps.bind (h a List.mem_cons_self) fun _ =>
      ih fun b hb => h b (List.mem_cons_of_mem a hb)

end Keeps

/-- Once the program has ended, `Q` holds. -/
def Establishes (Q : σ → Prop) (m : Prog ε σ α) : Prop :=
  ∀ ⦃s a t⦄, runFrom m s = (.ok a, t) → Q t

namespace Establishes

variable {Q : σ → Prop}

protected theorem bind {m : Prog ε σ α} {f : α → Prog ε σ β} (hf : ∀ a, Establishes Q (f a)) :
    Establishes Q (m >>= f) := by
  intro s b t h
  obtain ⟨a, u, -, ha⟩ := ok_of_bind_ok h
  exact hf a ha

/-- The body of `a` establishes `Q`, and those that follow keep it. -/
protected theorem forM {l : List α} {f : α → Prog ε σ PUnit} {a : α} (ha : a ∈ l)
    (hQ : Establishes Q (f a)) (hkeep : ∀ b ∈ l, Keeps Q (f b)) : Establishes Q (forM l f) := by
  induction l with
  | nil => cases ha
  | cons b l ih =>
    have hl : ∀ c ∈ l, Keeps Q (f c) := fun c hc => hkeep c (List.mem_cons_of_mem b hc)
    rw [List.forM_cons]
    rcases List.mem_cons.mp ha with rfl | ha
    · intro s x t h
      obtain ⟨y, u, hy, hrest⟩ := ok_of_bind_ok h
      have := Keeps.forM hl u (hQ hy)
      rwa [hrest] at this
    · exact Establishes.bind fun _ => ih ha hl

end Establishes

/-! ## Parts of the state -/

/-- On the part `π` of the state, `m` is `n`. -/
def Erases (π : σ → τ) (m : Prog ε σ α) (n : Prog ε τ α) : Prop :=
  ∀ s, runFrom n (π s) = ((runFrom m s).1, π (runFrom m s).2)

namespace Erases

variable {π : σ → τ}

protected theorem pure (a : α) : Erases π (pure a : Prog ε σ α) (pure a) := fun _ => rfl

protected theorem liftM (x : Except ε α) : Erases π (liftM x : Prog ε σ α) (liftM x) := fun s => by
  rw [runFrom_liftM, runFrom_liftM]
  rfl

protected theorem bind {m : Prog ε σ α} {n : Prog ε τ α} {f : α → Prog ε σ β} {g : α → Prog ε τ β}
    (hm : Erases π m n) (hf : ∀ a, Erases π (f a) (g a)) : Erases π (m >>= f) (n >>= g) := by
  intro s
  rw [runFrom_bind, runFrom_bind, hm s]
  cases h : runFrom m s with
  | mk r t =>
    cases r with
    | ok a => exact hf a t
    | error e => rfl

protected theorem forM {l : List α} {f : α → Prog ε σ PUnit} {g : α → Prog ε τ PUnit}
    (h : ∀ a ∈ l, Erases π (f a) (g a)) : Erases π (forM l f) (forM l g) := by
  induction l with
  | nil => exact Erases.pure PUnit.unit
  | cons a l ih =>
    rw [List.forM_cons, List.forM_cons]
    exact Erases.bind (h a List.mem_cons_self) fun _ =>
      ih fun b hb => h b (List.mem_cons_of_mem a hb)

end Erases

/-! ## Where a loop stops -/

/-- The bodies of `done` ran, and then the loop was at its end or the next body threw. -/
theorem forM_outcome (l : List α) (f : α → Prog ε σ PUnit) (s : σ) :
    ∃ done rest t, l = done ++ rest ∧ runFrom (forM done f) s = (.ok ⟨⟩, t) ∧
      (rest = [] ∨ ∃ a as e u, rest = a :: as ∧ runFrom (f a) t = (.error e, u) ∧
        runFrom (forM l f) s = (.error e, u)) := by
  induction l generalizing s with
  | nil => exact ⟨[], [], s, rfl, rfl, .inl rfl⟩
  | cons a l ih =>
    cases h : runFrom (f a) s with
    | mk r t =>
      cases r with
      | error e =>
        refine ⟨[], a :: l, s, rfl, rfl, .inr ⟨a, l, e, t, rfl, h, ?_⟩⟩
        rw [List.forM_cons]
        exact runFrom_bind_error h
      | ok x =>
        obtain ⟨done, rest, u, rfl, hdone, hrest⟩ := ih t
        refine ⟨a :: done, rest, u, rfl, ?_, hrest.imp_right ?_⟩
        · rw [List.forM_cons]
          exact (runFrom_bind_ok h).trans hdone
        · rintro ⟨b, as, e, v, rfl, hb, hl⟩
          refine ⟨b, as, e, v, rfl, hb, ?_⟩
          rw [List.forM_cons]
          exact (runFrom_bind_ok h).trans hl

end FallibleLoop
