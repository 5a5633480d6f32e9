import Mathlib.Data.List.Nodup
import Mathlib.Data.List.Range
import SmartQuantCollector.Lib.Gregorian

/-! # The days of a span of years

`calendar year n` lists the dates of `n` years, month by month. Their day numbers are consecutive
(`map_toDays_calendar`), so that the list has every date of these years once and in order. -/

namespace Gregorian

def monthDates (year month : Nat) : List Date :=
  (List.range' 1 (daysInMonth year month)).map fun day => ⟨year, month, day⟩

def yearDates (year : Nat) : List Date := (List.range' 1 12).flatMap (monthDates year)

def calendar (year n : Nat) : List Date := (List.range' year n).flatMap yearDates

/-- Blocks of consecutive numbers, each of which starts where the one before ends. -/
theorem map_flatMap_range' {α : Type*} {f : Nat → List α} {g : α → Nat} (first : Nat → Nat)
    {a n : Nat} (h : ∀ i, a ≤ i → i < a + n →
      (f i).map g = List.range' (first i) (first (i + 1) - first i) ∧ first i ≤ first (i + 1)) :
    ((List.range' a n).flatMap f).map g = List.range' (first a) (first (a + n) - first a) ∧
      first a ≤ first (a + n) := by
  induction n with
  | zero => simp
  | succ n ih =>
    obtain ⟨hmap, hle⟩ := ih fun i hi hlt => h i hi (by omega)
    obtain ⟨hlast, hstep⟩ := h (a + n) (by omega) (by omega)
    have hsplit : first (a + (n + 1)) - first a =
        (first (a + n) - first a) + (first (a + n + 1) - first (a + n)) := by
      rw [← Nat.add_assoc]
      omega
    have hnext : first a + (first (a + n) - first a) = first (a + n) := by omega
    refine ⟨?_, Nat.le_trans hle (by rwa [← Nat.add_assoc])⟩
    rw [List.range'_concat, List.flatMap_append, List.map_append, hmap, hsplit,
      ← List.range'_append_1, hnext, List.flatMap_singleton, Nat.one_mul, hlast]

theorem map_toDays_monthDates (year month : Nat) : (monthDates year month).map toDays =
    List.range' (monthFirst year month) (daysInMonth year month) := by
  refine List.ext_getElem (by simp [monthDates]) fun i hi hi' => ?_
  simp only [monthDates, List.getElem_map, List.getElem_range', Nat.one_mul]
  rw [toDays_eq (Nat.le_add_right ..)]
  simp

/-- The first day of a month; month 13 is that of the next year. -/
def monthFirst' (year month : Nat) : Nat :=
  if month ≤ 12 then monthFirst year month else monthFirst (year + 1) 1

theorem map_toDays_yearDates {year : Nat} (h : 1 ≤ year) : (yearDates year).map toDays =
    List.range' (monthFirst year 1) (monthFirst (year + 1) 1 - monthFirst year 1) ∧
      monthFirst year 1 ≤ monthFirst (year + 1) 1 := by
  have hmonth (m : Nat) (h1 : 1 ≤ m) (h12 : m < 1 + 12) :
      monthFirst' year (m + 1) = monthFirst' year m + daysInMonth year m := by
    rw [monthFirst', monthFirst', if_pos (by omega : m ≤ 12)]
    rcases Nat.lt_or_eq_of_le (by omega : m ≤ 12) with hlt | rfl
    · rw [if_pos (by omega), monthFirst_succ h h1 hlt]
    · rw [if_neg (by omega), monthFirst_newYear]
      rfl
  have hfirst : monthFirst' year 1 = monthFirst year 1 := if_pos (by decide)
  have hnext : monthFirst' year (1 + 12) = monthFirst (year + 1) 1 := if_neg (by decide)
  rw [← hfirst, ← hnext]
  refine map_flatMap_range' (monthFirst' year) fun m h1 h12 => ?_
  rw [map_toDays_monthDates, hmonth m h1 h12, monthFirst', if_pos (by omega : m ≤ 12),
    Nat.add_sub_cancel_left]
  exact ⟨rfl, Nat.le_add_right ..⟩

/-- The days of a span of years are consecutive. -/
theorem map_toDays_calendar {year : Nat} (h : 1 ≤ year) (n : Nat) :
    (calendar year n).map toDays = List.range' (monthFirst year 1)
      (monthFirst (year + n) 1 - monthFirst year 1) ∧
      monthFirst year 1 ≤ monthFirst (year + n) 1 :=
  map_flatMap_range' (f := yearDates) (fun y => monthFirst y 1)
    fun _ hle _ => map_toDays_yearDates (h.trans hle)

theorem valid_of_mem_calendar {year n : Nat} {date : Date} (h : 1 ≤ year)
    (hmem : date ∈ calendar year n) : date.Valid := by
  obtain ⟨y, hy, hmonth⟩ := List.mem_flatMap.mp hmem
  obtain ⟨m, hm, hday⟩ := List.mem_flatMap.mp hmonth
  obtain ⟨d, hd, rfl⟩ := List.mem_map.mp hday
  rw [List.mem_range'_1] at hy hm hd
  have hd' : d ≤ daysInMonth y m := by omega
  exact ⟨h.trans hy.1, ⟨hm.1, Nat.le_of_lt_succ hm.2⟩, hd.1, hd'⟩

theorem length_calendar {year : Nat} (h : 1 ≤ year) (n : Nat) :
    (calendar year n).length = monthFirst (year + n) 1 - monthFirst year 1 := by
  rw [← List.length_map toDays, (map_toDays_calendar h n).1, List.length_range']

theorem toDays_getElem?_calendar {year n k : Nat} {date : Date} (h : 1 ≤ year)
    (hk : (calendar year n)[k]? = some date) : toDays date = monthFirst year 1 + k := by
  obtain ⟨hlt, rfl⟩ := List.getElem?_eq_some_iff.mp hk
  have hmap := List.getElem_map toDays (h := (List.length_map toDays).symm ▸ hlt)
  rw [← hmap]
  simp only [(map_toDays_calendar h n).1, List.getElem_range', Nat.one_mul]

theorem nodup_calendar {year : Nat} (h : 1 ≤ year) (n : Nat) : (calendar year n).Nodup := by
  apply List.Nodup.of_map toDays
  rw [(map_toDays_calendar h n).1]
  exact List.nodup_range'

/-- Every date of these years is there. -/
theorem mem_calendar {year n : Nat} {date : Date} (hdate : date.Valid)
    (hle : year ≤ date.year) (hlt : date.year < year + n) : date ∈ calendar year n := by
  refine List.mem_flatMap.mpr ⟨date.year, List.mem_range'_1.mpr ⟨hle, hlt⟩,
    List.mem_flatMap.mpr ⟨date.month, List.mem_range'_1.mpr ⟨hdate.month.1, ?_⟩,
      List.mem_map.mpr ⟨date.day, List.mem_range'_1.mpr ⟨hdate.day.1, ?_⟩, rfl⟩⟩⟩
  · have := hdate.month.2
    omega
  · have := hdate.day.2
    omega

end Gregorian
