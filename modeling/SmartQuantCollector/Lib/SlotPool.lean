import Mathlib.Logic.Function.Basic

/-! # Slots with a flag and their holders

A pool marks each slot that it has handed out. `holds` gives the slot of every holder, `none` for
one that has none (yet, or any more). `Exclusive` says that just the slots with a holder are marked
and that no slot has two. It is kept when an unmarked slot is marked and given to a new holder
(`Exclusive.take`) and when the flag of a holder's slot is cleared (`Exclusive.give`). -/

namespace SlotPool

variable {ι κ : Type*}

structure Exclusive (inUse : κ → Bool) (holds : ι → Option κ) : Prop where
  inUse_iff : ∀ {k}, inUse k = true ↔ ∃ i, holds i = some k
  unique : ∀ {i j k}, holds i = some k → holds j = some k → i = j

namespace Exclusive

variable {inUse : κ → Bool} {holds : ι → Option κ} {i : ι} {k : κ}

theorem empty : Exclusive (fun _ : κ => false) (fun _ : ι => none) where
  inUse_iff := by simp
  unique h := by cases h

theorem inUse_of_holds (h : Exclusive inUse holds) (hi : holds i = some k) : inUse k = true :=
  h.inUse_iff.mpr ⟨i, hi⟩

/-- A slot that is not marked has no holder. -/
theorem holds_ne (h : Exclusive inUse holds) (hk : inUse k = false) (i : ι) :
    holds i ≠ some k := by
  intro hi
  rw [h.inUse_of_holds hi] at hk
  cases hk

variable [DecidableEq ι] [DecidableEq κ]

/-- A slot other than `k` keeps its holders when `i` had another one before and has another one
behind. -/
theorem inUse_iff_of_ne (h : Exclusive inUse holds) {l : κ} {b : Bool} {o : Option κ} (hl : l ≠ k)
    (hbefore : holds i ≠ some l) (hbehind : o ≠ some l) :
    Function.update inUse k b l = true ↔ ∃ j, Function.update holds i o j = some l := by
  rw [Function.update_of_ne hl, h.inUse_iff]
  refine exists_congr fun j => ?_
  rcases eq_or_ne j i with rfl | hj
  · rw [Function.update_self]
    exact iff_of_false hbefore hbehind
  · rw [Function.update_of_ne hj]

theorem take (h : Exclusive inUse holds) (hi : holds i = none) (hk : inUse k = false) :
    Exclusive (Function.update inUse k true) (Function.update holds i (some k)) where
  inUse_iff {l} := by
    rcases eq_or_ne l k with rfl | hl
    · refine iff_of_true (Function.update_self ..) ⟨i, Function.update_self ..⟩
    · exact h.inUse_iff_of_ne hl (by simp [hi]) (by simpa using hl.symm)
  unique {j j' l} hj hj' := by
    rw [Function.update_apply] at hj hj'
    split at hj
    next heq =>
      split at hj'
      next heq' => exact heq.trans heq'.symm
      next => exact absurd hj' (Option.some.inj hj ▸ h.holds_ne hk j')
    next =>
      split at hj'
      next => exact absurd hj (Option.some.inj hj' ▸ h.holds_ne hk j)
      next => exact h.unique hj hj'

theorem give (h : Exclusive inUse holds) (hi : holds i = some k) :
    Exclusive (Function.update inUse k false) (Function.update holds i none) where
  inUse_iff {l} := by
    rcases eq_or_ne l k with rfl | hl
    · refine iff_of_false (by simp) fun ⟨j, hj⟩ => ?_
      rw [Function.update_apply] at hj
      split at hj
      next => cases hj
      next hne => exact hne (h.unique hj hi)
    · exact h.inUse_iff_of_ne hl (by simpa [hi] using hl.symm) (by simp)
  unique {j j' l} hj hj' := by
    rw [Function.update_apply] at hj hj'
    split at hj
    next => cases hj
    next =>
      split at hj'
      next => cases hj'
      next => exact h.unique hj hj'

end Exclusive

end SlotPool
