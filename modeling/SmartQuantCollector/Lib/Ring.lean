import Mathlib.Data.Nat.ModEq
import Mathlib.Tactic.Ring

/-! # Ring buffers of a power-of-two capacity

Positions count up without bound; a position lives in the slot given by its low bits. Inside a
window of `capacity` consecutive positions every slot is used exactly once (`mod_window_inj`,
`exists_mod_window`).

Counters are either natural numbers or 64-bit words. `word_sub` and `word_and_mask` say that words
standing for two positions less than `2 ^ 64` apart subtract to their distance and that masking a
word gives the slot of its position, whatever number of times the word has wrapped. A counter that
goes round the slots comes to each of them within `capacity` steps (`exists_word_window`). -/

namespace Concurrency

/-- A power of two that fits a 64-bit word. -/
structure Capacity where
  exp : Nat
  exp_lt : exp < 64

namespace Capacity

variable (c : Capacity)

def val : Nat := 2 ^ c.exp

/-- The capacity as a machine word. -/
def word : UInt64 := UInt64.ofNat c.val

theorem val_pos : 0 < c.val := Nat.two_pow_pos _

theorem val_lt : c.val < 2 ^ 64 := Nat.pow_lt_pow_right (by decide) c.exp_lt

theorem two_le_val (h : 0 < c.exp) : 2 ≤ c.val :=
  calc 2 = 2 ^ 1 := rfl
    _ ≤ c.val := Nat.pow_le_pow_right (by decide) h

theorem val_dvd : c.val ∣ 2 ^ 64 := Nat.pow_dvd_pow 2 (Nat.le_of_lt c.exp_lt)

@[simp] theorem word_toNat : c.word.toNat = c.val := by
  rw [word, UInt64.toNat_ofNat', Nat.mod_eq_of_lt c.val_lt]

end Capacity

/-! ## Windows of positions -/

/-- Two positions of one window that share a slot are equal. -/
theorem mod_window_inj {a p q c : Nat} (hp : a ≤ p) (hp' : p < a + c) (hq : a ≤ q)
    (hq' : q < a + c) (h : p % c = q % c) : p = q := by
  have hle : ∀ {p q : Nat}, p ≤ q → a ≤ p → q < a + c → p % c = q % c → p = q := by
    intro p q hpq hp hq h
    have hd : c ∣ q - p := (Nat.modEq_iff_dvd' hpq).mp h
    have := Nat.eq_zero_of_dvd_of_lt hd (by omega)
    omega
  rcases Nat.le_total p q with hpq | hpq
  · exact hle hpq hp hq' h
  · exact (hle hpq hq hp' h.symm).symm

/-- With a capacity of at least two, a position and the next one have different slots. -/
theorem Capacity.succ_mod_ne {c : Capacity} (hc : 0 < c.exp) (p : Nat) :
    (p + 1) % c.val ≠ p % c.val := by
  have hle := c.two_le_val hc
  intro h
  have := mod_window_inj (a := p) (by omega) (by omega) (by omega) (by omega) h
  omega

/-- Every slot is the slot of some position of the window. -/
theorem exists_mod_window (a p : Nat) {c : Nat} (hc : 0 < c) :
    ∃ q, a ≤ q ∧ q < a + c ∧ q % c = p % c := by
  refine ⟨a + (p + (c - a % c)) % c, Nat.le_add_right _ _,
    Nat.add_lt_add_left (Nat.mod_lt _ hc) a, ?_⟩
  have hle : a % c ≤ c := Nat.le_of_lt (Nat.mod_lt _ hc)
  have ha : a + (p + (c - a % c)) = p + c * (a / c + 1) := by
    have := Nat.div_add_mod a c
    calc a + (p + (c - a % c)) = c * (a / c) + a % c + (p + (c - a % c)) := by rw [this]
      _ = p + (c * (a / c) + (a % c + (c - a % c))) := by ring
      _ = p + c * (a / c + 1) := by rw [Nat.add_sub_cancel' hle]; ring
  rw [Nat.add_mod, Nat.mod_mod, ← Nat.add_mod, ha, Nat.add_mul_mod_self_left]

/-! ## 64-bit counters -/

/-- The slot of a natural position: its low bits. -/
theorem and_mask (c : Capacity) (p : Nat) : p &&& (c.val - 1) = p % c.val :=
  Nat.and_two_pow_sub_one_eq_mod p c.exp

/-- The slot of the position a word stands for. -/
theorem word_and_mask (c : Capacity) (p : Nat) :
    (UInt64.ofNat p &&& (c.word - 1)).toNat = p % c.val := by
  have h1 : (c.word - 1).toNat = c.val - 1 := by
    rw [UInt64.toNat_sub_of_le _ _ (UInt64.le_iff_toNat_le.mpr (by
      rw [c.word_toNat]; exact c.val_pos)), c.word_toNat]
    rfl
  rw [UInt64.toNat_and, h1, UInt64.toNat_ofNat', and_mask, Nat.mod_mod_of_dvd _ c.val_dvd]

/-- As many consecutive words as there are slots come to every slot, also when the word wraps. -/
theorem exists_word_window (c : Capacity) (w : UInt64) {k : Nat} (hk : k < c.val) :
    ∃ i < c.val, (w + .ofNat i).toNat % c.val = k := by
  obtain ⟨q, hle, hlt, hq⟩ := exists_mod_window w.toNat k c.val_pos
  refine ⟨q - w.toNat, by omega, ?_⟩
  have hi : q - w.toNat < 2 ^ 64 := Nat.lt_trans (by omega : _ < c.val) c.val_lt
  rw [UInt64.toNat_add, UInt64.toNat_ofNat', Nat.mod_eq_of_lt hi, Nat.mod_mod_of_dvd _ c.val_dvd,
    Nat.add_sub_cancel' hle, hq, Nat.mod_eq_of_lt hk]

/-- Words of two positions subtract to their distance. -/
theorem word_sub {r w : Nat} (hrw : r ≤ w) (hlt : w - r < 2 ^ 64) :
    (UInt64.ofNat w - UInt64.ofNat r).toNat = w - r := by
  have hw : UInt64.ofNat w = UInt64.ofNat (w - r) + UInt64.ofNat r := by
    rw [← UInt64.ofNat_add, Nat.sub_add_cancel hrw]
  rw [hw, UInt64.add_sub_cancel, UInt64.toNat_ofNat', Nat.mod_eq_of_lt hlt]

/-- Words of two positions less than `2 ^ 64` apart differ when the positions do. -/
theorem word_inj {r w : Nat} (hrw : r ≤ w) (hlt : w - r < 2 ^ 64)
    (h : UInt64.ofNat r = UInt64.ofNat w) : r = w := by
  have := word_sub hrw hlt
  rw [h, UInt64.sub_self, UInt64.toNat_zero] at this
  omega

/-- Words of two positions of a window of `2 ^ 64` compare as the positions do. -/
theorem word_eq_iff {a m n : Nat} (hm : a ≤ m) (hm' : m < a + 2 ^ 64) (hn : a ≤ n)
    (hn' : n < a + 2 ^ 64) : UInt64.ofNat m = UInt64.ofNat n ↔ m = n := by
  refine ⟨fun h => ?_, congrArg UInt64.ofNat⟩
  rcases Nat.le_total m n with hmn | hmn
  · exact word_inj hmn (by omega) h
  · exact (word_inj hmn (by omega) h.symm).symm

theorem word_succ (p : Nat) : UInt64.ofNat p + 1 = UInt64.ofNat (p + 1) := by
  rw [UInt64.ofNat_add]; rfl

end Concurrency
