/-! # Programs that may throw

Programs over a state that stays as it is when an exception is thrown, on top of a monad `m`: `Id`
where nothing else can happen (`FallibleLoop`), `Option` where a program may also go wrong
(`Checked`). The lemmas below run such a program step by step. -/

namespace Fallible

abbrev ProgT (m : Type → Type) (ε σ : Type) := ExceptT ε (StateT σ m)

variable {m : Type → Type} [Monad m] {ε σ α β : Type}

/-- The outcome and the state of a program run from `s`. -/
def runFrom (x : ProgT m ε σ α) (s : σ) : m (Except ε α × σ) := x.run.run s

@[simp] theorem runFrom_pure (a : α) (s : σ) :
    runFrom (pure a : ProgT m ε σ α) s = pure (.ok a, s) := rfl

theorem runFrom_liftM (x : Except ε α) (s : σ) :
    runFrom (liftM x : ProgT m ε σ α) s = pure (x, s) := by
  cases x <;> rfl

theorem runFrom_bind (x : ProgT m ε σ α) (f : α → ProgT m ε σ β) (s : σ) :
    runFrom (x >>= f) s = runFrom x s >>= fun
      | (.ok a, t) => runFrom (f a) t
      | (.error e, t) => pure (.error e, t) := by
  unfold runFrom
  rw [ExceptT.run_bind, StateT.run_bind]
  refine congrArg (StateT.run (ExceptT.run x) s >>= ·) (funext fun rt => ?_)
  obtain ⟨r, t⟩ := rt
  cases r <;> rfl

variable [LawfulMonad m]

@[simp] theorem runFrom_get (s : σ) : runFrom (get : ProgT m ε σ σ) s = pure (.ok s, s) := by
  show StateT.run (Except.ok <$> (get : StateT σ m σ)) s = _
  simp

theorem runFrom_modify (f : σ → σ) (s : σ) :
    runFrom (modify f : ProgT m ε σ PUnit) s = pure (.ok ⟨⟩, f s) := by
  show StateT.run (Except.ok <$> (modify f : StateT σ m PUnit)) s = _
  simp

theorem runFrom_tryCatch (x : ProgT m ε σ α) (handler : ε → ProgT m ε σ α) (s : σ) :
    runFrom (tryCatch x handler) s = runFrom x s >>= fun
      | (.ok a, t) => pure (.ok a, t)
      | (.error e, t) => runFrom (handler e) t := by
  unfold runFrom
  rw [ExceptT.run_tryCatch, StateT.run_bind]
  refine congrArg (StateT.run (ExceptT.run x) s >>= ·) (funext fun rt => ?_)
  obtain ⟨r, t⟩ := rt
  cases r <;> rfl

variable {x : ProgT m ε σ α} {s t : σ}

theorem runFrom_bind_ok {f : α → ProgT m ε σ β} {a : α} (h : runFrom x s = pure (.ok a, t)) :
    runFrom (x >>= f) s = runFrom (f a) t := by
  rw [runFrom_bind, h, pure_bind]

theorem runFrom_bind_error {f : α → ProgT m ε σ β} {e : ε}
    (h : runFrom x s = pure (.error e, t)) : runFrom (x >>= f) s = pure (.error e, t) := by
  rw [runFrom_bind, h, pure_bind]

theorem runFrom_tryCatch_ok {handler : ε → ProgT m ε σ α} {a : α}
    (h : runFrom x s = pure (.ok a, t)) :
    runFrom (tryCatch x handler) s = pure (.ok a, t) := by
  rw [runFrom_tryCatch, h, pure_bind]

theorem runFrom_tryCatch_error {handler : ε → ProgT m ε σ α} {e : ε}
    (h : runFrom x s = pure (.error e, t)) :
    runFrom (tryCatch x handler) s = runFrom (handler e) t := by
  rw [runFrom_tryCatch, h, pure_bind]

end Fallible
