import Mathlib.Data.List.Forall2

/-! # Results in the order of their causes

`List.SublistForall₂ R l r` says that the items of `l` are related, one to one and in order, to some
of the items of `r`. The rules below are for lists that are produced step by step: items may be left
out on the left, the right may grow, and a new pair goes to the end of both. -/

namespace List.SublistForall₂

variable {α β : Type*} {R : α → β → Prop} {l l' : List α} {r r' : List β}

theorem of_sublist_left (h : SublistForall₂ R l r) (hl : l' <+ l) : SublistForall₂ R l' r := by
  induction h generalizing l' with
  | nil =>
    rw [sublist_nil.mp hl]
    exact .nil
  | cons hab _ ih =>
    cases hl with
    | cons _ hl => exact .cons_right (ih hl)
    | cons_cons _ hl => exact .cons hab (ih hl)
  | cons_right _ ih => exact .cons_right (ih hl)

theorem of_sublist_right (h : SublistForall₂ R l r) (hr : r <+ r') : SublistForall₂ R l r' := by
  induction hr generalizing l with
  | slnil => exact h
  | cons _ _ ih => exact .cons_right (ih h)
  | cons_cons _ _ ih =>
    cases h with
    | nil => exact .nil
    | cons hab h => exact .cons hab (ih h)
    | cons_right h => exact .cons_right (ih h)

theorem concat (h : SublistForall₂ R l r) {a : α} {b : β} (hab : R a b) :
    SublistForall₂ R (l ++ [a]) (r ++ [b]) := by
  induction h with
  | @nil r =>
    have hlast : SublistForall₂ R [a] [b] := .cons hab .nil
    exact hlast.of_sublist_right (sublist_append_right r [b])
  | cons hab' _ ih => exact .cons hab' ih
  | cons_right _ ih => exact .cons_right ih

/-- The causes may be replaced one by one. -/
theorem of_forall₂_right {γ : Type*} {S : β → γ → Prop} {R' : α → γ → Prop} {r' : List γ}
    (h : SublistForall₂ R l r) (hr : Forall₂ S r r') (hRS : ∀ a b c, R a b → S b c → R' a c) :
    SublistForall₂ R' l r' := by
  induction h generalizing r' with
  | nil => exact .nil
  | cons hab _ ih =>
    cases hr with
    | cons hbc hr => exact .cons (hRS _ _ _ hab hbc) (ih hr)
  | cons_right _ ih =>
    cases hr with
    | cons _ hr => exact .cons_right (ih hr)

theorem filter {p : α → Bool} {q : β → Bool} (h : SublistForall₂ R l r)
    (hpq : ∀ a b, R a b → p a = q b) : SublistForall₂ R (l.filter p) (r.filter q) := by
  induction h with
  | nil => exact .nil
  | @cons a b l r hab _ ih =>
    rw [filter_cons, filter_cons, hpq a b hab]
    split
    · exact .cons hab ih
    · exact ih
  | @cons_right b l r _ ih =>
    rw [filter_cons]
    split
    · exact .cons_right ih
    · exact ih

theorem exists_of_mem (h : SublistForall₂ R l r) {a : α} (ha : a ∈ l) : ∃ b ∈ r, R a b := by
  induction h with
  | nil => cases ha
  | @cons a' b l r hab _ ih =>
    rcases mem_cons.mp ha with rfl | ha
    · exact ⟨b, mem_cons_self, hab⟩
    · obtain ⟨b', hb', hR⟩ := ih ha
      exact ⟨b', mem_cons_of_mem b hb', hR⟩
  | @cons_right b l r _ ih =>
    obtain ⟨b', hb', hR⟩ := ih ha
    exact ⟨b', mem_cons_of_mem b hb', hR⟩

end List.SublistForall₂
