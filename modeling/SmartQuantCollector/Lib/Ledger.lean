import Mathlib.Algebra.BigOperators.Group.Finset.Basic
import Mathlib.Algebra.Order.Group.Multiset
import Mathlib.Data.Fintype.BigOperators
import Mathlib.Tactic.Abel

/-! # Ledgers

What a family of components holds is the sum of what each of them holds. When one component changes,
the sum changes by what that component gained and lost (`sum_update_add`, `sum_update_dep_add`). A
ledger of numbered items stays free of repetitions when a step only moves items, drops some, or adds
the next number (`NumberedBelow.of_le`, `NumberedBelow.of_cons`); in a list of such items a number
stands for one item (`filter_number_eq_singleton`). -/

namespace Concurrency

open scoped BigOperators

/-- A change of one component, with what it held before and holds after on opposite sides. -/
theorem sum_update_add {ι β M : Type*} [Fintype ι] [DecidableEq ι] [AddCommMonoid M]
    (f : β → M) (g : ι → β) (i : ι) (x : β) :
    (∑ j, f (Function.update g i x j)) + f (g i) = (∑ j, f (g j)) + f x := by
  have hrest : ∑ j ∈ Finset.univ.erase i, f (Function.update g i x j) =
      ∑ j ∈ Finset.univ.erase i, f (g j) :=
    Finset.sum_congr rfl fun j hj => by
      rw [Function.update_of_ne (Finset.ne_of_mem_erase hj)]
  rw [← Finset.add_sum_erase _ _ (Finset.mem_univ i),
    ← Finset.add_sum_erase _ (fun j => f (g j)) (Finset.mem_univ i), hrest, Function.update_self]
  abel

/-- The same for components of different types. -/
theorem sum_update_dep_add {ι M : Type*} {β : ι → Type*} [Fintype ι] [DecidableEq ι]
    [AddCommMonoid M] (f : ∀ j, β j → M) (g : ∀ j, β j) (i : ι) (x : β i) :
    (∑ j, f j (Function.update g i x j)) + f i (g i) = (∑ j, f j (g j)) + f i x := by
  simpa only [Function.apply_update, id] using sum_update_add id (fun j => f j (g j)) i (f i x)

section Numbered

variable {α : Type*} (number : α → Nat)

/-- The items have different numbers, all below `bound`. -/
structure NumberedBelow (bound : Nat) (items : Multiset α) : Prop where
  nodup : (items.map number).Nodup
  lt : ∀ x ∈ items, number x < bound

variable {number} {bound : Nat} {items rest : Multiset α}

theorem NumberedBelow.of_le (h : NumberedBelow number bound items) (hle : rest ≤ items) :
    NumberedBelow number bound rest :=
  ⟨Multiset.nodup_of_le (Multiset.map_le_map hle) h.nodup,
    fun x hx => h.lt x (Multiset.mem_of_le hle hx)⟩

theorem NumberedBelow.of_cons (h : NumberedBelow number bound items) {x : α}
    (hx : number x = bound) : NumberedBelow number (bound + 1) (x ::ₘ items) := by
  constructor
  · rw [Multiset.map_cons, Multiset.nodup_cons]
    refine ⟨fun hmem => ?_, h.nodup⟩
    obtain ⟨y, hy, heq⟩ := Multiset.mem_map.mp hmem
    exact Nat.ne_of_lt (h.lt y hy) (heq.trans hx)
  · intro y hy
    rcases Multiset.mem_cons.mp hy with rfl | hy
    · rw [hx]; exact Nat.lt_succ_self bound
    · exact Nat.lt_succ_of_lt (h.lt y hy)

/-- In a list without repeated numbers, an item is the only one of its number. -/
theorem filter_number_eq_singleton {l : List α} (h : (l.map number).Nodup) {x : α} (hx : x ∈ l) :
    l.filter (number · = number x) = [x] := by
  induction l with
  | nil => cases hx
  | cons y l ih =>
    rw [List.map_cons, List.nodup_cons] at h
    have hfresh : ∀ z ∈ l, number y ≠ number z :=
      fun z hz heq => h.1 (heq ▸ List.mem_map_of_mem hz)
    rcases List.mem_cons.mp hx with rfl | hx
    · rw [List.filter_cons_of_pos (by simp), List.filter_eq_nil_iff.mpr]
      exact fun z hz heq => hfresh z hz (of_decide_eq_true heq).symm
    · rw [List.filter_cons_of_neg (by simpa using hfresh x hx), ih h.2 hx]

end Numbered

end Concurrency
