import Mathlib.Data.List.Infix

/-! # Logs whose entries are justified

A log of what several parties have done, in the order in which it was done. A rule about it says
what has to be in the log before an entry of some kind; the log only grows at its end, so a rule is
kept if each new entry obeys it (`Guarded.concat`). `Earlier P` is for what a party has seen to hold
at some moment and may not hold any more. -/

namespace GuardedLog

variable {α : Type*} {ok : List α → α → Prop} {P Q : List α → Prop} {log : List α} {e : α}

/-- Every entry is justified by those before it. -/
def Guarded (ok : List α → α → Prop) (log : List α) : Prop := ∀ l e r, log = l ++ e :: r → ok l e

theorem Guarded.nil : Guarded ok [] := fun l e r h => by
  cases l <;> cases h

theorem Guarded.concat (h : Guarded ok log) (he : ok log e) : Guarded ok (log ++ [e]) := by
  intro l x r heq
  rcases List.eq_nil_or_concat r with rfl | ⟨r, y, rfl⟩
  · obtain ⟨rfl, hx⟩ := List.append_inj' heq rfl
    cases hx
    exact he
  · rw [List.concat_eq_append, ← List.cons_append, ← List.append_assoc] at heq
    obtain ⟨hlog, -⟩ := List.append_inj' heq rfl
    exact h l x r hlog

/-- `P` held of the log at some moment. -/
def Earlier (P : List α → Prop) (log : List α) : Prop := ∃ l, l <+: log ∧ P l

theorem Earlier.now (h : P log) : Earlier P log := ⟨log, List.prefix_rfl, h⟩

theorem Earlier.concat (h : Earlier P log) : Earlier P (log ++ [e]) := by
  obtain ⟨l, hl, hP⟩ := h
  exact ⟨l, hl.trans (List.prefix_append _ _), hP⟩

end GuardedLog
