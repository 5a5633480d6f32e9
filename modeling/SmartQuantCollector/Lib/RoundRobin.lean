import Mathlib.Data.Fintype.EquivFin
import Mathlib.Data.List.FinRange
import Mathlib.Data.Nat.ModEq
import Mathlib.Logic.Function.Iterate

/-! # Polling places in turn

A poll looks at one place, changes nothing but that place and reports whether it did some work. One
round polls every place once, and rounds are repeated until one reports no work. Whatever the order
within a round, after `c` rounds every place has been polled `c` times (`polled`), so the loop ends
with the first round in which no place works (`pollLoop_eq`). `rotation` is the order that starts
at a cursor. -/

namespace RoundRobin

variable {ι : Type*} {β : ι → Type*} {poll : ∀ i, β i → β i × Bool}

/-- The places after each of them was polled `c` times. -/
def polled (poll : ∀ i, β i → β i × Bool) (s : ∀ i, β i) (c : Nat) (i : ι) : β i :=
  (fun x => (poll i x).1)^[c] (s i)

theorem polled_succ (s : ∀ i, β i) (c : Nat) :
    polled poll s (c + 1) = polled poll (polled poll s 1) c := rfl

variable [DecidableEq ι] {s : ∀ i, β i}

/-- Polls the places of a list one after the other. The flag is set if one of them works. -/
def pollAll (poll : ∀ i, β i → β i × Bool) : List ι → (∀ i, β i) → Bool → (∀ i, β i) × Bool
  | [], s, any => (s, any)
  | i :: is, s, any =>
    pollAll poll is (Function.update s i (poll i (s i)).1) (any || (poll i (s i)).2)

/-- Rounds until one reports no work, in an order that depends on the cursor. `none` is out of
fuel. -/
def pollLoop (poll : ∀ i, β i → β i × Bool) (order : Nat → List ι) (next : Nat → Nat) :
    Nat → (∀ i, β i) → Nat → Option (∀ i, β i)
  | 0, _, _ => none
  | fuel + 1, s, cursor =>
    let r := pollAll poll (order cursor) s false
    if r.2 then pollLoop poll order next fuel r.1 (next cursor) else some r.1

theorem pollAll_of_nodup {is : List ι} (h : is.Nodup) (s : ∀ i, β i) (any : Bool) :
    pollAll poll is s any =
      (fun i => if i ∈ is then (poll i (s i)).1 else s i,
        any || is.any fun i => (poll i (s i)).2) := by
  induction is generalizing s any with
  | nil => simp [pollAll]
  | cons a is ih =>
    obtain ⟨ha, his⟩ := List.nodup_cons.mp h
    have hne {i : ι} (hi : i ∈ is) : i ≠ a := fun heq => ha (heq ▸ hi)
    rw [pollAll, ih his]
    refine Prod.ext (funext fun i => ?_) ?_
    · rcases eq_or_ne i a with rfl | hia
      · simp [ha]
      · simp [hia]
    · -- the other places still are as they were
      have hflags : (is.any fun i =>
          (poll i (Function.update s a (poll a (s a)).1 i)).2) =
          is.any fun i => (poll i (s i)).2 := by
        rw [Bool.eq_iff_iff, List.any_eq_true, List.any_eq_true]
        refine exists_congr fun i => and_congr_right fun hi => ?_
        rw [Function.update_of_ne (hne hi)]
      simp only [hflags, List.any_cons, Bool.or_assoc]

/-- A round in which every place has its turn once. -/
theorem pollAll_of_complete (poll : ∀ i, β i → β i × Bool) {is : List ι} (h : is.Nodup)
    (hmem : ∀ i, i ∈ is) (s : ∀ i, β i) :
    (pollAll poll is s false).1 = polled poll s 1 ∧
      ((pollAll poll is s false).2 = true ↔ ∃ i, (poll i (s i)).2 = true) := by
  rw [pollAll_of_nodup h]
  refine ⟨funext fun i => if_pos (hmem i), ?_⟩
  simp [hmem]

/-- The loop runs up to the first round without work. -/
theorem pollLoop_eq {order : Nat → List ι} {next : Nat → Nat} (hnodup : ∀ k, (order k).Nodup)
    (hmem : ∀ k i, i ∈ order k) {c fuel cursor : Nat}
    (hwork : ∀ c' < c, ∃ i, (poll i (polled poll s c' i)).2 = true)
    (hstop : ∀ i, (poll i (polled poll s c i)).2 = false) (hfuel : c < fuel) :
    pollLoop poll order next fuel s cursor = some (polled poll s (c + 1)) := by
  induction c generalizing s fuel cursor with
  | zero =>
    obtain ⟨fuel, rfl⟩ := Nat.exists_eq_succ_of_ne_zero (by omega : fuel ≠ 0)
    obtain ⟨hstate, hflag⟩ := pollAll_of_complete poll (hnodup cursor) (hmem cursor) s
    have hnot : ¬ (pollAll poll (order cursor) s false).2 = true := by
      rw [hflag]
      rintro ⟨i, hi⟩
      have := hstop i
      simp only [polled, Function.iterate_zero, id_eq] at this
      exact Bool.false_ne_true (this.symm.trans hi)
    rw [pollLoop, if_neg hnot, hstate]
  | succ c ih =>
    obtain ⟨fuel, rfl⟩ := Nat.exists_eq_succ_of_ne_zero (by omega : fuel ≠ 0)
    obtain ⟨hstate, hflag⟩ := pollAll_of_complete poll (hnodup cursor) (hmem cursor) s
    rw [pollLoop, if_pos (hflag.mpr (hwork 0 (by omega))), hstate, polled_succ]
    refine ih (fun c' hc' => ?_) (fun i => ?_) (by omega)
    · exact hwork (c' + 1) (by omega)
    · exact hstop i

/-! ## The order from a cursor -/

theorem rotation_lt {k : Nat} (cursor : Nat) (i : Fin k) : (cursor + i) % k < k :=
  Nat.mod_lt _ i.pos

/-- The numbers below `k`, starting from the cursor and going round. -/
def rotation (k cursor : Nat) : List (Fin k) :=
  (List.finRange k).map fun i : Fin k => ⟨(cursor + i) % k, rotation_lt cursor i⟩

theorem rotation_injective (k cursor : Nat) :
    Function.Injective fun i : Fin k =>
      (⟨(cursor + i) % k, rotation_lt cursor i⟩ : Fin k) := by
  intro i j h
  have hmod : (cursor + i) % k = (cursor + j) % k := Fin.val_eq_of_eq h
  have hcancel : (i : Nat) % k = (j : Nat) % k := Nat.ModEq.add_left_cancel' cursor hmod
  rw [Nat.mod_eq_of_lt i.isLt, Nat.mod_eq_of_lt j.isLt] at hcancel
  exact Fin.ext hcancel

theorem nodup_rotation (k cursor : Nat) : (rotation k cursor).Nodup :=
  (List.nodup_finRange k).map (rotation_injective k cursor)

theorem mem_rotation {k : Nat} (cursor : Nat) (i : Fin k) : i ∈ rotation k cursor := by
  obtain ⟨j, hj⟩ := Finite.surjective_of_injective (rotation_injective k cursor) i
  exact List.mem_map.mpr ⟨j, List.mem_finRange j, hj⟩

end RoundRobin
