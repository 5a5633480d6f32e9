import Mathlib.Algebra.Group.Nat.Defs
import Mathlib.Data.List.Basic
import Mathlib.Data.List.Forall2
import SmartQuantCollector.Lib.Utf8

/-! # Comma-separated text

Lines of plain fields, numbers in decimal digits, and what a reader has to do to get the fields
back. -/

namespace Csv

/-- Neither a separator, nor the end of a line, nor a quote, nor NUL. -/
def PlainChar (c : Char) : Prop := c ≠ ',' ∧ c ≠ '\n' ∧ c ≠ '\r' ∧ c ≠ '"' ∧ c ≠ '\x00'

instance (c : Char) : Decidable (PlainChar c) := inferInstanceAs (Decidable (_ ∧ _))

def Plain (field : List Char) : Prop := ∀ c ∈ field, PlainChar c

instance (field : List Char) : Decidable (Plain field) :=
  List.decidableBAll PlainChar field

/-- A field of at most `limit` ASCII characters, none of which separates fields. -/
structure Cell (limit : Nat) (field : List Char) : Prop where
  plain : Plain field
  ascii : Utf8.Ascii field
  length_le : field.length ≤ limit

instance (limit : Nat) (field : List Char) : Decidable (Cell limit field) :=
  decidable_of_iff (Plain field ∧ Utf8.Ascii field ∧ field.length ≤ limit)
    ⟨fun ⟨h, h', h''⟩ => ⟨h, h', h''⟩, fun ⟨h, h', h''⟩ => ⟨h, h', h''⟩⟩

/-- One line of text. -/
def line (fields : List (List Char)) : List Char := [','].intercalate fields ++ ['\n']

def text (rows : List (List (List Char))) : List Char := rows.flatMap line

/-- A row whose fields a reader can tell apart, none of them longer than `limit`. -/
structure PlainRow (limit : Nat) (row : List (List Char)) : Prop where
  two_le : 2 ≤ row.length
  plain : ∀ field ∈ row, Plain field
  length_le : ∀ field ∈ row, field.length ≤ limit

/-- A reader of comma-separated text. What it makes of quotes and of fields that are longer than
`limit` is its own matter. -/
structure Reader where
  rows : List Char → List (List (List Char))
  limit : Nat
  rows_text : ∀ {rs}, (∀ row ∈ rs, PlainRow limit row) → rows (text rs) = rs

/-! ## Plain fields -/

theorem Plain.append {field field' : List Char} (h : Plain field) (h' : Plain field') :
    Plain (field ++ field') :=
  List.forall_mem_append.mpr ⟨h, h'⟩

theorem plainChar_of_isDigit {c : Char} (h : c.isDigit = true) : PlainChar c := by
  refine ⟨?_, ?_, ?_, ?_, ?_⟩ <;>
  · rintro rfl
    revert h
    decide

theorem plain_toDigits (n : Nat) : Plain (Nat.toDigits 10 n) := fun _ hc =>
  plainChar_of_isDigit (Nat.isDigit_of_mem_toDigits (by decide) (by decide) hc)

theorem Cell.mono {m n : Nat} {field : List Char} (h : Cell m field) (hle : m ≤ n) :
    Cell n field :=
  ⟨h.plain, h.ascii, Nat.le_trans h.length_le hle⟩

theorem Cell.append {m n : Nat} {field field' : List Char} (h : Cell m field) (h' : Cell n field') :
    Cell (m + n) (field ++ field') := by
  refine ⟨h.plain.append h'.plain, List.forall_mem_append.mpr ⟨h.ascii, h'.ascii⟩, ?_⟩
  rw [List.length_append]
  exact Nat.add_le_add h.length_le h'.length_le

theorem cell_toDigits {n k : Nat} (hk : 0 < k) (h : n < 10 ^ k) : Cell k (Nat.toDigits 10 n) := by
  refine ⟨plain_toDigits n, fun c hc => ?_, (Nat.length_toDigits_le_iff (by decide) hk).mpr h⟩
  have hdigit := Nat.isDigit_of_mem_toDigits (by decide) (by decide) hc
  rw [Char.isDigit_iff_toNat] at hdigit
  exact Nat.lt_of_le_of_lt hdigit.2 (by decide)

theorem plainRow_of_cells {m limit : Nat} {row : List (List Char)} (hle : m ≤ limit)
    (htwo : 2 ≤ row.length) (h : ∀ field ∈ row, Cell m field) : PlainRow limit row :=
  ⟨htwo, fun f hf => (h f hf).plain, fun f hf => Nat.le_trans (h f hf).length_le hle⟩

theorem toDigits_inj {m n : Nat} (h : Nat.toDigits 10 m = Nat.toDigits 10 n) : m = n := by
  rw [← Nat.ofDigitChars_toDigits (by decide : 1 < 10) (by decide) (n := m), h,
    Nat.ofDigitChars_toDigits (by decide) (by decide)]

/-- Two texts with the same first separator have the same text before it. -/
theorem append_cons_inj {α : Type} {c : α} {a b r r' : List α} (ha : c ∉ a) (hb : c ∉ b)
    (h : a ++ c :: r = b ++ c :: r') : a = b ∧ r = r' := by
  induction a generalizing b with
  | nil =>
    cases b with
    | nil => exact ⟨rfl, (List.cons.inj h).2⟩
    | cons x b => exact absurd ((List.cons.inj h).1 ▸ List.mem_cons_self) hb
  | cons x a ih =>
    cases b with
    | nil => exact absurd ((List.cons.inj h).1 ▸ List.mem_cons_self) ha
    | cons y b =>
      obtain ⟨rfl, htail⟩ := List.cons.inj h
      obtain ⟨rfl, hr⟩ := ih (mt (List.mem_cons_of_mem _) ha) (mt (List.mem_cons_of_mem _) hb) htail
      exact ⟨rfl, hr⟩

/-! ## Lines -/

theorem notMem_intercalate {c : Char} (hc : c ≠ ',') {fields : List (List Char)}
    (h : ∀ f ∈ fields, c ∉ f) : c ∉ [','].intercalate fields := by
  induction fields with
  | nil => exact List.not_mem_nil
  | cons f fields ih =>
    obtain ⟨hf, hfields⟩ := List.forall_mem_cons.mp h
    cases fields with
    | nil => rwa [List.intercalate_singleton]
    | cons f' fields =>
      rw [List.intercalate_cons_cons, List.mem_append, List.mem_append, List.mem_singleton]
      rintro ((hmem | hmem) | hmem)
      · exact hf hmem
      · exact hc hmem
      · exact ih hfields hmem

theorem Plain.newline_notMem {field : List Char} (h : Plain field) : '\n' ∉ field :=
  fun hmem => (h _ hmem).2.1 rfl

theorem Plain.comma_notMem {field : List Char} (h : Plain field) : ',' ∉ field :=
  fun hmem => (h _ hmem).1 rfl

theorem line_ne_nil (fields : List (List Char)) : line fields ≠ [] :=
  List.append_ne_nil_of_right_ne_nil _ (List.cons_ne_nil _ _)

theorem count_line {fields : List (List Char)} (h : ∀ f ∈ fields, Plain f) :
    (line fields).count '\n' = 1 := by
  have hnone := notMem_intercalate (by decide : '\n' ≠ ',') fun f hf => (h f hf).newline_notMem
  rw [line, List.count_append, List.count_eq_zero_of_not_mem hnone]
  rfl

theorem text_cons (row : List (List Char)) (rs : List (List (List Char))) :
    text (row :: rs) = line row ++ text rs :=
  List.flatMap_cons

theorem text_singleton (row : List (List Char)) : text [row] = line row := List.append_nil _

theorem text_append (rs rs' : List (List (List Char))) : text (rs ++ rs') = text rs ++ text rs' :=
  List.flatMap_append

theorem count_text {rs : List (List (List Char))} (h : ∀ row ∈ rs, ∀ f ∈ row, Plain f) :
    (text rs).count '\n' = rs.length := by
  induction rs with
  | nil => rfl
  | cons row rs ih =>
    obtain ⟨hrow, hrs⟩ := List.forall_mem_cons.mp h
    rw [text_cons, List.count_append, count_line hrow, ih hrs, List.length_cons, Nat.add_comm]

/-! ## Files of lines -/

section Encoding
open Utf8

theorem encodes_intercalate {fs gs : List (List Char)} (h : List.Forall₂ Encodes fs gs) :
    Encodes ([','].intercalate fs) ([','].intercalate gs) := by
  induction h with
  | nil => rfl
  | cons hf htail ih =>
    cases htail with
    | nil =>
      rw [List.intercalate_singleton, List.intercalate_singleton]
      exact hf
    | cons _ _ =>
      rw [List.intercalate_cons_cons, List.intercalate_cons_cons]
      exact (hf.append (encodes_ascii (by decide))).append ih

theorem encodes_line {fs gs : List (List Char)} (h : List.Forall₂ Encodes fs gs) :
    Encodes (line fs) (line gs) :=
  (encodes_intercalate h).append (encodes_ascii (by decide))

theorem encodes_text {rs qs : List (List (List Char))}
    (h : List.Forall₂ (List.Forall₂ Encodes) rs qs) : Encodes (text rs) (text qs) := by
  induction h with
  | nil => rfl
  | cons hrow _ ih =>
    rw [text_cons, text_cons]
    exact (encodes_line hrow).append ih

theorem encodes_cells {m : Nat} {row : List (List Char)} (h : ∀ f ∈ row, Cell m f) :
    List.Forall₂ Encodes row row :=
  List.forall₂_same.mpr fun f hf => encodes_ascii (h f hf).ascii

end Encoding

/-! ## A reader -/

theorem text_eq_intercalate (rs : List (List (List Char))) :
    text rs = ['\n'].intercalate (rs.map ([','].intercalate ·) ++ [[]]) := by
  induction rs with
  | nil => rfl
  | cons row rs ih =>
    obtain ⟨l, ls, hls⟩ := List.exists_cons_of_ne_nil
      (List.append_ne_nil_of_right_ne_nil (rs.map ([','].intercalate ·)) (List.cons_ne_nil [] []))
    rw [text_cons, ih, line, List.map_cons, List.cons_append, hls, List.intercalate_cons_cons]

/-- The reader that knows no quotes. -/
def splitReader (limit : Nat) : Reader where
  limit := limit
  rows t := (t.splitOn '\n').dropLast.map (List.splitOn ',')
  rows_text := by
    intro rs h
    have hline : ∀ l ∈ rs.map ([','].intercalate ·) ++ [[]], '\n' ∉ l := by
      intro l hl
      rcases List.mem_append.mp hl with hl | hl
      · obtain ⟨row, hrow, rfl⟩ := List.mem_map.mp hl
        exact notMem_intercalate (by decide) fun f hf => ((h row hrow).plain f hf).newline_notMem
      · cases List.mem_singleton.mp hl
        exact List.not_mem_nil
    rw [text_eq_intercalate, List.splitOn_intercalate '\n' hline (by simp),
      List.dropLast_concat, List.map_map]
    conv_rhs => rw [← List.map_id rs]
    refine List.map_congr_left fun row hrow => ?_
    obtain ⟨hlen, hplain, -⟩ := h row hrow
    refine List.splitOn_intercalate ',' (fun f hf => (hplain f hf).comma_notMem) ?_
    rintro rfl
    cases hlen

end Csv
