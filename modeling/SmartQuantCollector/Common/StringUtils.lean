import Mathlib.Algebra.Group.Int.Defs
import Mathlib.Algebra.Group.Nat.Defs
import Mathlib.Data.List.Basic
import Mathlib.Data.Nat.Log
import SmartQuantCollector.Common.MarketEvent

/-! # Doubles and `SvToDouble` (`src/common/string_utils.h`)

`std::from_chars` reads the longest beginning of a text that is a numeral. Which texts are numerals
and which doubles they stand for is a parameter of the parsers (`Doubles`). `Doubles.decimal` has
the decimal numerals, rounded to the nearest double, and the texts of infinity and NaN. -/

namespace Sqc

namespace Double

/-- `d < 0`, which is false of `-0.0` and of a NaN. -/
def isNegative (d : Double) : Bool :=
  let magnitude := d.toNat % 2 ^ 63
  decide (2 ^ 63 ≤ d.toNat ∧ 0 < magnitude ∧ magnitude ≤ 2047 * 2 ^ 52)

def neg (d : Double) : Double := d ^^^ 0x8000000000000000

def isNaN (d : Double) : Bool := decide (2047 * 2 ^ 52 < d.toNat % 2 ^ 63)

end Double

structure Doubles where
  /-- `std::from_chars` takes the text as a whole. -/
  isNumeral : List Char → Bool
  /-- The double of a numeral, `none` when it is out of range. -/
  ofNumeral : List Char → Option Double
  ofInt64 : Int64 → Double
  /-- `static_cast<uint64_t>(d * 1000.0)`. -/
  timesThousand : Double → UInt64

namespace Doubles

/-- The longest beginning of the text that is a numeral. -/
def longestNumeral (num : Doubles) (text : List Char) : Option (List Char) :=
  ((List.range (text.length + 1)).reverse.map text.take).find? num.isNumeral

def fromChars (num : Doubles) (text : List Char) : Option Double :=
  (num.longestNumeral text).bind num.ofNumeral

def svToDouble (num : Doubles) (sv : String) : Option Double := num.fromChars sv.toList

/-- The double of a text that is a numeral as a whole. -/
def entire (num : Doubles) (sv : String) : Option Double :=
  if num.isNumeral sv.toList then num.ofNumeral sv.toList else none

theorem longestNumeral_of_isNumeral {num : Doubles} {text : List Char}
    (h : num.isNumeral text = true) : num.longestNumeral text = some text := by
  rw [longestNumeral, List.range_succ, List.reverse_append, List.reverse_singleton, List.map_append,
    List.map_singleton, List.take_length]
  exact List.find?_cons_of_pos h

/-- A text that is a numeral as a whole is read as a whole. -/
theorem svToDouble_of_entire {num : Doubles} {sv : String} {d : Double}
    (h : num.entire sv = some d) : num.svToDouble sv = some d := by
  unfold entire at h
  split at h
  next hnumeral => rw [svToDouble, fromChars, longestNumeral_of_isNumeral hnumeral]; exact h
  next => cases h

end Doubles

/-! ## Decimal numerals -/

/-- The bits of the number nearest to `n / d`, ties to even, in a format with a fraction and an
exponent of that many bits. Numbers that round to zero and those beyond the largest have none. -/
def nearestBits (fractionBits exponentBits : Nat) (negative : Bool) (n d : Nat) : Option Nat :=
  let sign := if negative then 2 ^ (fractionBits + exponentBits) else 0
  if n = 0 then some sign
  else
    let estimate : Int := Nat.log2 n - Nat.log2 d
    let below := n * 2 ^ (-estimate).toNat < d * 2 ^ estimate.toNat
    let exponent := if below then estimate - 1 else estimate
    let least : Int := 2 - 2 ^ (exponentBits - 1) - fractionBits
    let unit := max (exponent - fractionBits) least
    let n := n * 2 ^ (-unit).toNat
    let d := d * 2 ^ unit.toNat
    let up := d < 2 * (n % d) ∨ d = 2 * (n % d) ∧ n / d % 2 = 1
    let significand := n / d + if up then 1 else 0
    let bits := (unit - least).toNat * 2 ^ fractionBits + significand
    if significand = 0 ∨ (2 ^ exponentBits - 1) * 2 ^ fractionBits ≤ bits then none
    else some (sign + bits)

namespace Double

/-- The double nearest to `n / d`. -/
def ofRatio (negative : Bool) (n d : Nat) : Option Double :=
  (nearestBits 52 11 negative n d).map UInt64.ofNat

/-- The magnitude of a double as a fraction. -/
def toRatio (x : Double) : Nat × Nat :=
  let bits := x.toNat % 2 ^ 63
  let exponent := bits / 2 ^ 52
  let significand := if exponent = 0 then bits else bits % 2 ^ 52 + 2 ^ 52
  (significand * 2 ^ (max exponent 1 - 1075), 2 ^ (1075 - max exponent 1))

end Double

/-- The sign, the digits and the power of ten of a decimal numeral. -/
def scanDecimal (text : List Char) : Option (Bool × List Char × Int) :=
  let negative := text.head? = some '-'
  let rest := if negative then text.tail else text
  let whole := rest.takeWhile Char.isDigit
  let rest := rest.dropWhile Char.isDigit
  let point := rest.head? = some '.'
  let rest := if point then rest.tail else rest
  let fraction := if point then rest.takeWhile Char.isDigit else []
  let rest := if point then rest.dropWhile Char.isDigit else rest
  if whole ++ fraction = [] then none
  else
    match rest with
    | [] => some (negative, whole ++ fraction, -fraction.length)
    | e :: rest =>
      let down := rest.head? = some '-'
      let digits := if down ∨ rest.head? = some '+' then rest.tail else rest
      let power : Int := Nat.ofDigitChars 10 digits 0
      if (e = 'e' ∨ e = 'E') ∧ digits ≠ [] ∧ digits.all Char.isDigit then
        some (negative, whole ++ fraction, (if down then -power else power) - fraction.length)
      else none

/-- `inf`, `infinity`, `nan` and `nan(...)` in letters of either case. -/
def scanSpecial (text : List Char) : Option Double :=
  let negative := text.head? = some '-'
  let rest := (if negative then text.tail else text).map Char.toLower
  let sign := if negative then 2 ^ 63 else 0
  let payload := (rest.drop 4).dropLast
  if rest = "inf".toList ∨ rest = "infinity".toList then
    some (UInt64.ofNat (sign + 0x7FF0000000000000))
  else if rest = "nan".toList ∨ rest = "nan(".toList ++ payload ++ [')'] ∧
      payload.all fun c => c.isAlphanum || c = '_' then
    some (UInt64.ofNat (sign + 0x7FF8000000000000))
  else none

/-- `std::from_chars` for doubles. -/
def Doubles.decimal : Doubles where
  isNumeral text := (scanDecimal text).isSome || (scanSpecial text).isSome
  ofNumeral text :=
    match scanDecimal text with
    | some (negative, digits, power) =>
      Double.ofRatio negative (Nat.ofDigitChars 10 digits 0 * 10 ^ power.toNat)
        (10 ^ (-power).toNat)
    | none => scanSpecial text
  ofInt64 n := (Double.ofRatio (n.toInt < 0) n.toInt.natAbs 1).getD 0
  timesThousand x :=
    let (n, d) := x.toRatio
    let product := ((Double.ofRatio false (n * 1000) d).getD 0).toRatio
    UInt64.ofNat (product.1 / product.2)

/-- `96.4`, `1.5` before a letter, and infinity before a letter. -/
example : ["96.4", "1.5abc", "abc", "-Inf.", "nan(1)"].map Doubles.decimal.svToDouble =
    [some 0x405819999999999A, some 0x3FF8000000000000, none, some 0xFFF0000000000000,
      some 0x7FF8000000000000] := by decide +kernel

/-! ## Texts of a double -/

namespace Double

/-- `n / d` to `count` significant digits, with the power of ten of the first one. -/
def roundTo (n d count : Nat) : Nat × Int :=
  let power : Int := if d ≤ n then (Nat.toDigits 10 (n / d)).length - 1
    else -(Nat.toDigits 10 ((d - 1) / n)).length
  let shift := count - 1 - power
  let n := n * 10 ^ shift.toNat
  let d := d * 10 ^ (-shift).toNat
  let rounded := (2 * n + d) / (2 * d)
  if rounded = 10 ^ count then (rounded / 10, power + 1) else (rounded, power)

/-- Digits in the notation that `fmt` has for them: the exponent is written from `1e+16` on and
below `1e-04`. -/
def notate (digits : List Char) (power : Int) : List Char :=
  let exponent := Nat.toDigits 10 power.natAbs
  let whole := power.toNat + 1
  if power < -4 ∨ 16 ≤ power then
    digits.take 1 ++ (if digits.length = 1 then [] else '.' :: digits.drop 1) ++
      ['e', if power < 0 then '-' else '+'] ++ List.replicate (2 - exponent.length) '0' ++ exponent
  else if power < 0 then "0.".toList ++ List.replicate (power.natAbs - 1) '0' ++ digits
  else if digits.length ≤ whole then digits ++ List.replicate (whole - digits.length) '0'
  else digits.take whole ++ '.' :: digits.drop whole

/-- The texts of up to 17 digits, the shortest first. -/
def texts (x : Double) : List (List Char) :=
  let sign := if 2 ^ 63 ≤ x.toNat then ['-'] else []
  let (n, d) := x.toRatio
  if x.toNat % 2 ^ 63 = 2047 * 2 ^ 52 then [sign ++ "inf".toList]
  else if n = 0 then [sign ++ ['0']]
  else
    (List.range 17).map fun i =>
      let (digits, power) := roundTo n d (i + 1)
      sign ++ notate (Nat.toDigits 10 digits) power

/-- The first text that is read as the double. -/
def shortest (x : Double) : Option (List Char) :=
  (texts x).find? fun text => decide (Doubles.decimal.ofNumeral text = some x)

theorem ofNumeral_shortest {x : Double} {text : List Char} (h : x.shortest = some text) :
    Doubles.decimal.ofNumeral text = some x :=
  of_decide_eq_true (List.find?_some (p := fun text =>
    decide (Doubles.decimal.ofNumeral text = some x)) h)

end Double

/-- `42000.5`, `-0.1`, `1e+16`, `2.5e-323` and zero. -/
example : [0x40E4821000000000, 0xBFB999999999999A, 0x4341C37937E08000, 5, 0].map Double.shortest =
    ["42000.5", "-0.1", "1e+16", "2.5e-323", "0"].map fun text => some text.toList := by
  decide +kernel

end Sqc
