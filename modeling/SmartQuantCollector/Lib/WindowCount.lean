import Mathlib.Data.List.Basic
import Mathlib.Order.Basic

/-! # Counting in a window

How many elements of a sorted list lie in a window, without counting: more than `m` exactly when two
elements `m` places apart do. A window is any predicate that holds between two places where it
holds. -/

namespace WindowCount

variable {α : Type*} [Preorder α] {l : List α} {p : α → Bool} {m : Nat}

/-- The predicate has no gaps. -/
def Convex (p : α → Bool) : Prop := ∀ a b c, a ≤ b → b ≤ c → p a = true → p c = true → p b = true

theorem getElem_le_getElem (hl : l.Pairwise (· ≤ ·)) {i j : Nat} (hij : i ≤ j)
    (hj : j < l.length) : l[i] ≤ l[j] := by
  rcases Nat.eq_or_lt_of_le hij with rfl | hlt
  · exact le_refl _
  · exact List.pairwise_iff_getElem.mp hl i j (Nat.lt_of_le_of_lt hij hj) hj hlt

/-- The places between two places of the window belong to it. -/
theorem lt_countP_of_getElem (hl : l.Pairwise (· ≤ ·)) (hp : Convex p) {j : Nat}
    (hj : j + m < l.length) (hfirst : p (l[j]) = true) (hlast : p (l[j + m]) = true) :
    m < l.countP p := by
  have hall : ∀ a ∈ (l.drop j).take (m + 1), p a = true := by
    intro a ha
    obtain ⟨i, hi, rfl⟩ := List.mem_iff_getElem.mp ha
    rw [List.getElem_take, List.getElem_drop]
    have hi : i < m + 1 := by simp only [List.length_take] at hi; omega
    exact hp _ _ _ (getElem_le_getElem hl (Nat.le_add_right j i) (by omega))
      (getElem_le_getElem hl (by omega) hj) hfirst hlast
  have hsub : ((l.drop j).take (m + 1)).Sublist l :=
    (List.take_sublist ..).trans (List.drop_sublist ..)
  have hcount : ((l.drop j).take (m + 1)).countP p = m + 1 := by
    rw [List.countP_eq_length.mpr hall, List.length_take, List.length_drop]
    omega
  have := hsub.countP_le (p := p)
  omega

theorem lt_countP_iff (hl : l.Pairwise (· ≤ ·)) (hp : Convex p) :
    m < l.countP p ↔ ∃ j, ∃ hj : j + m < l.length, p (l[j]) = true ∧ p (l[j + m]) = true := by
  refine ⟨fun h => ?_, fun ⟨j, hj, hfirst, hlast⟩ => lt_countP_of_getElem hl hp hj hfirst hlast⟩
  induction l generalizing m with
  | nil => cases h
  | cons a l ih =>
    have hl' := (List.pairwise_cons.mp hl).2
    cases ha : p a with
    | false =>
      rw [List.countP_cons_of_neg (by rw [ha]; exact nofun)] at h
      obtain ⟨j, hj, hfirst, hlast⟩ := ih hl' h
      refine ⟨j + 1, by rw [List.length_cons]; omega, hfirst, ?_⟩
      simpa [Nat.add_right_comm j 1 m] using hlast
    | true =>
      rw [List.countP_cons_of_pos ha] at h
      cases m with
      | zero => exact ⟨0, Nat.succ_pos _, ha, ha⟩
      | succ m =>
        obtain ⟨j, hj, -, hlast⟩ := ih hl' (Nat.lt_of_succ_lt_succ h)
        have hj' : j + m + 1 < (a :: l).length := Nat.succ_lt_succ hj
        have hm : m + 1 < (a :: l).length := by omega
        -- the first place of the window may be taken to be the head
        have hle : (a :: l)[m + 1] ≤ (a :: l)[j + m + 1] := getElem_le_getElem hl (by omega) hj'
        refine ⟨0, by omega, ha, ?_⟩
        simp only [Nat.zero_add]
        exact hp a _ _ (getElem_le_getElem hl (Nat.zero_le _) hm) hle ha hlast

end WindowCount
