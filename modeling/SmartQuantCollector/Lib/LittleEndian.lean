import Mathlib.Data.Nat.Basic
import Mathlib.Data.UInt

/-! # Little-endian words

The bytes of a word in memory, least significant first, and the word that bytes hold. -/

namespace LittleEndian

/-- The `width` lowest bytes of `n`. -/
def encode : (width n : Nat) → List UInt8
  | 0, _ => []
  | width + 1, n => .ofNat n :: encode width (n / 256)

def decode : List UInt8 → Nat
  | [] => 0
  | b :: bs => b.toNat + 256 * decode bs

@[simp] theorem length_encode (width n : Nat) : (encode width n).length = width := by
  induction width generalizing n with
  | zero => rfl
  | succ width ih => rw [encode, List.length_cons, ih]

theorem decode_encode {width n : Nat} (h : n < 256 ^ width) : decode (encode width n) = n := by
  induction width generalizing n with
  | zero =>
    rw [Nat.pow_zero] at h
    rw [encode, decode]
    omega
  | succ width ih =>
    rw [Nat.pow_succ] at h
    rw [encode, decode, ih (Nat.div_lt_of_lt_mul (by omega)), UInt8.toNat_ofNat']
    omega

theorem encode_inj {width m n : Nat} (hm : m < 256 ^ width) (hn : n < 256 ^ width)
    (h : encode width m = encode width n) : m = n := by
  rw [← decode_encode hm, h, decode_encode hn]

end LittleEndian
