import Mathlib.Data.List.TakeWhile
import Mathlib.Data.List.InsertIdx

/-! # Counted arrays

A fixed block of `cap` slots and the number of slots in use, as a C program keeps a small ordered
table: elements are found by scanning, removed by shifting the rest left and added by shifting the
rest right, all in place. Every access is checked, `none` standing for an index outside the block,
so that a specification `∃ d, op c = some d ∧ …` also says that the operation stays inside.

Each operation is specified by the list operation it performs on the slots in use. -/

/-- `slots[0 .. count)` is in use. -/
structure CountedArray (α : Type*) (cap : Nat) where
  slots : Vector α cap
  count : Nat

namespace CountedArray

variable {α : Type*} {cap : Nat}

/-! ## Checked accesses and loops -/

def read (v : Vector α cap) (i : Nat) : Option α := v[i]?

def write (v : Vector α cap) (i : Nat) (a : α) : Option (Vector α cap) :=
  if h : i < cap then some (v.set i a h) else none

/-- `while (pos < pos + k && p(v[pos])) ++pos`. -/
def advanceWhile (p : α → Bool) (v : Vector α cap) : (k pos : Nat) → Option Nat
  | 0, pos => some pos
  | k + 1, pos =>
    (read v pos).bind fun a => if p a then advanceWhile p v k (pos + 1) else some pos

/-- `for (j = pos; j < pos + k; ++j) v[j] = v[j + 1]`. -/
def shiftLeft : (v : Vector α cap) → (k pos : Nat) → Option (Vector α cap)
  | v, 0, _ => some v
  | v, k + 1, pos => do
    let a ← read v (pos + 1)
    let v ← write v pos a
    shiftLeft v k (pos + 1)

/-- `for (j = pos + k; j > pos; --j) v[j] = v[j - 1]`. -/
def shiftRight : (v : Vector α cap) → (k pos : Nat) → Option (Vector α cap)
  | v, 0, _ => some v
  | v, k + 1, pos => do
    let a ← read v (pos + k)
    let v ← write v (pos + k + 1) a
    shiftRight v k pos

theorem read_eq_some {v : Vector α cap} {i : Nat} (h : i < cap) : read v i = some v[i] := by
  simp [read, h]

theorem write_eq_some {v : Vector α cap} {i : Nat} (a : α) (h : i < cap) :
    ∃ w, write v i a = some w ∧ ∀ j : Nat, w[j]? = if i = j then some a else v[j]? := by
  refine ⟨v.set i a h, by simp [write, h], fun j => ?_⟩
  rw [Vector.getElem?_set]

theorem advanceWhile_eq_some (p : α → Bool) (v : Vector α cap) {k pos : Nat} (h : pos + k ≤ cap) :
    advanceWhile p v k pos = some (pos + (((v.toList.drop pos).take k).takeWhile p).length) := by
  induction k generalizing pos with
  | zero => simp [advanceWhile]
  | succ k ih =>
    have hlt : pos < v.toList.length := by simp; omega
    rw [List.drop_eq_getElem_cons hlt, List.take_succ_cons]
    simp only [advanceWhile, read_eq_some (show pos < cap by omega), Option.bind_some,
      Vector.getElem_toList]
    cases hp : p v[pos] with
    | false => simp [hp]
    | true =>
      rw [if_pos rfl, ih (by omega), List.takeWhile_cons_of_pos hp, List.length_cons]
      congr 1
      omega

theorem shiftLeft_eq_some (v : Vector α cap) (k pos : Nat) (h : pos + k < cap) :
    ∃ w, shiftLeft v k pos = some w ∧
      ∀ i : Nat, w[i]? = if pos ≤ i ∧ i < pos + k then v[i + 1]? else v[i]? := by
  induction k generalizing v pos with
  | zero =>
    refine ⟨v, rfl, fun i => ?_⟩
    rw [if_neg (by omega)]
  | succ k ih =>
    obtain ⟨u, hu, hget⟩ := write_eq_some (v := v) v[pos + 1] (show pos < cap by omega)
    obtain ⟨w, hw, hrest⟩ := ih u (pos + 1) (by omega)
    refine ⟨w, ?_, fun i => ?_⟩
    · simp only [shiftLeft, read_eq_some (show pos + 1 < cap by omega), Option.bind_eq_bind,
        Option.bind_some, hu, hw]
    · rw [hrest]
      rcases Nat.lt_trichotomy i pos with hi | rfl | hi
      · rw [if_neg (by omega), if_neg (by omega), hget, if_neg (by omega)]
      · rw [if_neg (by omega), if_pos (by omega), hget, if_pos rfl,
          Vector.getElem?_eq_getElem (by omega)]
      · by_cases hk : i < pos + (k + 1)
        · rw [if_pos (by omega), if_pos (by omega), hget, if_neg (by omega)]
        · rw [if_neg (by omega), if_neg (by omega), hget, if_neg (by omega)]

theorem shiftRight_eq_some (v : Vector α cap) (k pos : Nat) (h : pos + k < cap) :
    ∃ w, shiftRight v k pos = some w ∧
      ∀ i : Nat, w[i]? = if pos < i ∧ i ≤ pos + k then v[i - 1]? else v[i]? := by
  induction k generalizing v with
  | zero =>
    refine ⟨v, rfl, fun i => ?_⟩
    rw [if_neg (by omega)]
  | succ k ih =>
    obtain ⟨u, hu, hget⟩ := write_eq_some (v := v) v[pos + k] (show pos + k + 1 < cap by omega)
    obtain ⟨w, hw, hrest⟩ := ih u (by omega)
    refine ⟨w, ?_, fun i => ?_⟩
    · simp only [shiftRight, read_eq_some (show pos + k < cap by omega), Option.bind_eq_bind,
        Option.bind_some, hu, hw]
    · rw [hrest]
      rcases Nat.lt_trichotomy i (pos + k + 1) with hi | rfl | hi
      · by_cases hp : pos < i
        · rw [if_pos (by omega), if_pos (by omega), hget, if_neg (by omega)]
        · rw [if_neg (by omega), if_neg (by omega), hget, if_neg (by omega)]
      · rw [if_neg (by omega), if_pos (by omega), hget, if_pos rfl, Nat.add_sub_cancel,
          Vector.getElem?_eq_getElem (by omega)]
      · rw [if_neg (by omega), if_neg (by omega), hget, if_neg (by omega)]

/-! ## Operations on the slots in use -/

/-- The slots in use, in order. -/
def toList (c : CountedArray α cap) : List α := c.slots.toList.take c.count

/-- All slots hold `a` and none is in use. -/
def empty (a : α) : CountedArray α cap := ⟨.replicate cap a, 0⟩

/-- `count = 0`. -/
def reset (c : CountedArray α cap) : CountedArray α cap := { c with count := 0 }

/-- The position of the first slot in use that does not satisfy `p`, `count` if there is none. -/
def scan (p : α → Bool) (c : CountedArray α cap) : Option Nat := advanceWhile p c.slots c.count 0

def setAt (c : CountedArray α cap) (pos : Nat) (a : α) : Option (CountedArray α cap) := do
  return { c with slots := ← write c.slots pos a }

/-- Shift left over `pos`. -/
def eraseAt (c : CountedArray α cap) (pos : Nat) : Option (CountedArray α cap) := do
  return ⟨← shiftLeft c.slots (c.count - 1 - pos) pos, c.count - 1⟩

/-- Shift right from `pos` and write there. -/
def insertAt (c : CountedArray α cap) (pos : Nat) (a : α) : Option (CountedArray α cap) := do
  let slots ← shiftRight c.slots (c.count - pos) pos
  return ⟨← write slots pos a, c.count + 1⟩

def push (c : CountedArray α cap) (a : α) : Option (CountedArray α cap) := do
  return ⟨← write c.slots c.count a, c.count + 1⟩

@[simp] theorem toList_reset (c : CountedArray α cap) : c.reset.toList = [] := rfl

@[simp] theorem count_reset (c : CountedArray α cap) : c.reset.count = 0 := rfl

theorem length_toList {c : CountedArray α cap} (h : c.count ≤ cap) :
    c.toList.length = c.count := by
  simp [toList, h]

theorem getElem?_toList (c : CountedArray α cap) (i : Nat) :
    c.toList[i]? = if i < c.count then c.slots[i]? else none := by
  rw [toList, List.getElem?_take]
  simp

theorem scan_eq_some (p : α → Bool) {c : CountedArray α cap} (h : c.count ≤ cap) :
    ∃ front back, c.toList = front ++ back ∧ c.scan p = some front.length ∧
      (∀ a ∈ front, p a = true) ∧ ∀ a ∈ back.head?, p a = false := by
  refine ⟨c.toList.takeWhile p, c.toList.dropWhile p, List.takeWhile_append_dropWhile.symm, ?_,
    fun a => List.mem_takeWhile_imp, fun a ha => ?_⟩
  · rw [scan, advanceWhile_eq_some p c.slots (by omega), toList, List.drop_zero, Nat.zero_add]
  · have := List.head?_dropWhile_not p c.toList
    rw [Option.mem_def.mp ha] at this
    exact this

theorem read_of_toList {c : CountedArray α cap} {front back : List α} {a : α}
    (hc : c.toList = front ++ a :: back) : read c.slots front.length = some a := by
  have hget := c.getElem?_toList front.length
  rw [hc, List.getElem?_append_right (Nat.le_refl _), Nat.sub_self, List.getElem?_cons_zero] at hget
  split at hget
  · exact hget.symm
  · cases hget

theorem setAt_eq_some {c : CountedArray α cap} {front back : List α} {b : α} (a : α)
    (h : c.count ≤ cap) (hc : c.toList = front ++ b :: back) :
    ∃ d, c.setAt front.length a = some d ∧ d.count = c.count ∧ d.toList = front ++ a :: back := by
  have hlen : c.count = front.length + (back.length + 1) := by rw [← length_toList h, hc]; simp
  obtain ⟨w, hw, hget⟩ := write_eq_some (v := c.slots) a (show front.length < cap by omega)
  have hset : front ++ a :: back = c.toList.set front.length a := by
    rw [hc, List.set_append_right _ _ (Nat.le_refl _), Nat.sub_self, List.set_cons_zero]
  refine ⟨{ c with slots := w }, by simp [setAt, hw], rfl, hset ▸ List.ext_getElem? fun i => ?_⟩
  rw [List.getElem?_set, getElem?_toList, getElem?_toList, length_toList h, hget]
  by_cases hi : front.length = i
  · subst hi
    simp [show front.length < c.count by omega]
  · simp [hi]

theorem eraseAt_eq_some {c : CountedArray α cap} {front back : List α} {b : α}
    (h : c.count ≤ cap) (hc : c.toList = front ++ b :: back) :
    ∃ d, c.eraseAt front.length = some d ∧ d.count = c.count - 1 ∧ d.toList = front ++ back := by
  have hlen : c.count = front.length + (back.length + 1) := by rw [← length_toList h, hc]; simp
  obtain ⟨w, hw, hget⟩ := shiftLeft_eq_some c.slots (c.count - 1 - front.length)
    front.length (by omega)
  have herase : front ++ back = c.toList.eraseIdx front.length := by
    rw [hc, List.eraseIdx_append_of_length_le (Nat.le_refl _), Nat.sub_self,
      List.eraseIdx_cons_zero]
  refine ⟨⟨w, c.count - 1⟩, by simp [eraseAt, hw], rfl, herase ▸ List.ext_getElem? fun i => ?_⟩
  rw [List.getElem?_eraseIdx, getElem?_toList, getElem?_toList, getElem?_toList]
  simp only [hget]
  by_cases hi : i < front.length
  · rw [if_pos (by omega), if_neg (by omega), if_pos hi, if_pos (by omega)]
  · rw [if_neg hi]
    by_cases hi' : i + 1 < c.count
    · rw [if_pos (by omega), if_pos (by omega), if_pos hi']
    · rw [if_neg (by omega), if_neg hi']

theorem insertIdx_length_append (front back : List α) (a : α) :
    (front ++ back).insertIdx front.length a = front ++ a :: back := by
  induction front with
  | nil => rfl
  | cons x front ih => rw [List.cons_append, List.length_cons, List.insertIdx_succ_cons, ih]; rfl

theorem insertAt_eq_some {c : CountedArray α cap} {front back : List α} (a : α)
    (h : c.count < cap) (hc : c.toList = front ++ back) :
    ∃ d, c.insertAt front.length a = some d ∧ d.count = c.count + 1 ∧
      d.toList = front ++ a :: back := by
  have hlen : c.count = front.length + back.length := by rw [← length_toList h.le, hc]; simp
  obtain ⟨u, hu, hshift⟩ := shiftRight_eq_some c.slots (c.count - front.length)
    front.length (by omega)
  obtain ⟨w, hw, hget⟩ := write_eq_some (v := u) a (show front.length < cap by omega)
  have hinsert : front ++ a :: back = c.toList.insertIdx front.length a := by
    rw [hc, insertIdx_length_append]
  refine ⟨⟨w, c.count + 1⟩, by simp [insertAt, hu, hw], rfl,
    hinsert ▸ List.ext_getElem? fun i => ?_⟩
  rw [List.getElem?_insertIdx, length_toList h.le]
  simp only [getElem?_toList, hget, hshift]
  rcases Nat.lt_trichotomy i front.length with hi | rfl | hi
  · rw [if_pos (by omega), if_neg (by omega), if_neg (by omega), if_pos hi, if_pos (by omega)]
  · rw [if_pos (by omega), if_pos rfl, if_neg (by omega), if_pos rfl, if_pos (by omega)]
  · rw [if_neg (by omega : ¬ i < front.length), if_neg (by omega : ¬ i = front.length)]
    by_cases hi' : i < c.count + 1
    · rw [if_pos hi', if_neg (by omega), if_pos (by omega), if_pos (by omega)]
    · rw [if_neg hi', if_neg (by omega)]

theorem push_eq_some {c : CountedArray α cap} (a : α) (h : c.count < cap) :
    ∃ d, c.push a = some d ∧ d.count = c.count + 1 ∧ d.toList = c.toList ++ [a] := by
  obtain ⟨w, hw, hget⟩ := write_eq_some (v := c.slots) a h
  refine ⟨⟨w, c.count + 1⟩, by simp [push, hw], rfl, List.ext_getElem? fun i => ?_⟩
  rw [List.getElem?_append, length_toList h.le]
  simp only [getElem?_toList, hget]
  rcases Nat.lt_trichotomy i c.count with hi | rfl | hi
  · rw [if_pos (by omega), if_neg (by omega), if_pos hi, if_pos hi]
  · simp
  · rw [if_neg (by omega), if_neg (by omega), List.getElem?_eq_none (by simp; omega)]

end CountedArray
