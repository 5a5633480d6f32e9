import SmartQuantCollector.Lib.Fallible

/-! # Programs that may go wrong

A program over a state that ends with a value, throws an exception (the state stays as it is then),
or goes wrong, i.e. does something that has no meaning, such as using a null pointer. `Safe` has the
rules for programs that keep an invariant. -/

namespace Checked
open Fallible

abbrev Prog (ε σ : Type) := ProgT Option ε σ

variable {ε σ α β : Type}

/-- The program that goes wrong. -/
def wrong : Prog ε σ α := ExceptT.mk fun _ => none

/-- Goes wrong unless the state meets the condition. -/
def require (p : σ → Bool) : Prog ε σ Unit := do
  if p (← get) then pure () else wrong

@[simp] theorem runFrom_require_bind {p : σ → Bool} {f : Unit → Prog ε σ β} {s : σ}
    (h : p s = true) : runFrom (require p >>= f) s = runFrom (f ()) s := by
  apply runFrom_bind_ok
  unfold require
  rw [runFrom_bind_ok (runFrom_get s), h]
  rfl

theorem runFrom_require_wrong {p : σ → Bool} {f : Unit → Prog ε σ β} {s : σ}
    (h : p s = false) : runFrom (require p >>= f) s = none := by
  have hwrong : runFrom (require p : Prog ε σ Unit) s = none := by
    unfold require
    rw [runFrom_bind_ok (runFrom_get s), h]
    rfl
  rw [runFrom_bind, hwrong]
  rfl

/-! ## Safety -/

/-- From a state with `P` the program does not go wrong, and `P` holds when it ends or throws. -/
def Safe (P : σ → Prop) (m : Prog ε σ α) : Prop :=
  ∀ s, P s → ∃ r t, runFrom m s = some (r, t) ∧ P t

namespace Safe

variable {P : σ → Prop}

protected theorem pure (a : α) : Safe P (pure a : Prog ε σ α) := fun s h => ⟨_, s, rfl, h⟩

protected theorem throw (e : ε) : Safe P (throw e : Prog ε σ α) := fun s h => ⟨_, s, rfl, h⟩

protected theorem modify {f : σ → σ} (h : ∀ s, P s → P (f s)) :
    Safe P (modify f : Prog ε σ Unit) := fun s hs => ⟨_, f s, rfl, h s hs⟩

protected theorem require {p : σ → Bool} (h : ∀ s, P s → p s = true) :
    Safe P (require p : Prog ε σ Unit) := fun s hs => by
  refine ⟨.ok (), s, ?_, hs⟩
  have := runFrom_require_bind (ε := ε) (f := pure) (h s hs)
  rwa [bind_pure] at this

protected theorem bind {m : Prog ε σ α} {f : α → Prog ε σ β} (hm : Safe P m)
    (hf : ∀ a, Safe P (f a)) : Safe P (m >>= f) := by
  intro s hs
  obtain ⟨r, t, hrun, ht⟩ := hm s hs
  cases r with
  | ok a => rw [runFrom_bind_ok hrun]; exact hf a t ht
  | error e => exact ⟨_, t, runFrom_bind_error hrun, ht⟩

protected theorem tryCatch {m : Prog ε σ α} {handler : ε → Prog ε σ α} (hm : Safe P m)
    (hh : ∀ e, Safe P (handler e)) : Safe P (tryCatch m handler) := by
  intro s hs
  obtain ⟨r, t, hrun, ht⟩ := hm s hs
  rw [runFrom_tryCatch, hrun]
  cases r with
  | ok a => exact ⟨_, t, rfl, ht⟩
  | error e => exact hh e t ht

end Safe

end Checked
