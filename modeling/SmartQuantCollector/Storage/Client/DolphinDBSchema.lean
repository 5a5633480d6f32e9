import SmartQuantCollector.Lib.CalendarDays
import SmartQuantCollector.Storage.Engine.CsvDate
import SmartQuantCollector.Storage.UtcDays

/-! # The partitions of the DolphinDB tables (`src/storage/client/dolphindb_schema.cpp`)

`BuildRangeSpec` writes the boundaries of the RANGE partitions of a span of years as a vector of
dates. `rangeDates` are these dates; the text lists them (`buildRangeSpec_eq`). -/

namespace Sqc
open Gregorian

namespace DolphinDBSchema

/-- A boundary. -/
structure RangeDate where
  year : Int
  month : Nat
  day : Nat
deriving DecidableEq

/-- `{:0<width>d}`. -/
def formatInt (width : Nat) (n : Int) : List Char :=
  if n < 0 then '-' :: padded (width - 1) n.natAbs else padded width n.natAbs

def RangeDate.text (date : RangeDate) : List Char :=
  formatInt 4 date.year ++ '.' :: (padded 2 date.month ++ '.' :: padded 2 date.day)

def RangeDate.quoted (date : RangeDate) : List Char := '"' :: date.text ++ ['"']

/-- The values of `for (int y = start_year; y <= end_year; ++y)`. -/
def years (startYear endYear : Int) : List Int :=
  (List.range (endYear + 1 - startYear).toNat).map fun i : Nat => startYear + (i : Int)

/-- `days_in_month[m - 1]`, with the entry of February set in leap years. -/
def daysInMonthOf (y : Int) (m : Nat) : Nat :=
  let table := [31, 28, 31, 30, 31, 30, 31, 31, 30, 31, 30, 31]
  let table := if m = 2 ∧ ((y.tmod 4 = 0 ∧ y.tmod 100 ≠ 0) ∨ y.tmod 400 = 0) then table.set 1 29
    else table
  table.getD (m - 1) 0

/-- Appends a quoted date to `dates`. -/
def pushDate (dates : List Char) (date : RangeDate) : List Char :=
  (if dates.isEmpty then dates else dates ++ [',']) ++ date.quoted

/-- The variable `dates` of `BuildRangeSpec` behind the loops. -/
def buildDates (startYear endYear : Int) (granularity : String) : List Char :=
  if granularity = "day" then
    (years startYear endYear).foldl (fun dates y =>
      (List.range' 1 12).foldl (fun dates m =>
        (List.range' 1 (daysInMonthOf y m)).foldl (fun dates d => pushDate dates ⟨y, m, d⟩) dates)
        dates) []
  else if granularity = "month" then
    (years startYear endYear).foldl (fun dates y =>
      (List.range' 1 12).foldl (fun dates m => pushDate dates ⟨y, m, 1⟩) dates) []
  else (years startYear endYear).foldl (fun dates y => pushDate dates ⟨y, 1, 1⟩) []

def buildRangeSpec (startYear endYear : Int) (granularity : String) : List Char :=
  "date([".toList ++ buildDates startYear endYear granularity ++ "])".toList

/-- The boundaries that `BuildRangeSpec` emits. -/
def rangeDates (startYear endYear : Int) (granularity : String) : List RangeDate :=
  if granularity = "day" then
    (years startYear endYear).flatMap fun y => (List.range' 1 12).flatMap fun m =>
      (List.range' 1 (daysInMonthOf y m)).map fun d => ⟨y, m, d⟩
  else if granularity = "month" then
    (years startYear endYear).flatMap fun y => (List.range' 1 12).map fun m => ⟨y, m, 1⟩
  else (years startYear endYear).map fun y => ⟨y, 1, 1⟩

/-- A vector of dates in the language of the database. -/
def specText (dates : List RangeDate) : List Char :=
  "date([".toList ++ [','].intercalate (dates.map RangeDate.quoted) ++ "])".toList

/-! ## The text -/

theorem intercalate_append_cons (l x : List Char) (rest : List (List Char)) :
    [','].intercalate ((l ++ x) :: rest) = l ++ [','].intercalate (x :: rest) := by
  cases rest with
  | nil => rw [List.intercalate_singleton, List.intercalate_singleton]
  | cons y rest =>
    rw [List.intercalate_cons_cons, List.intercalate_cons_cons]
    simp only [List.append_assoc]

/-- Behind the first date every date is preceded by a comma. -/
theorem foldl_pushDate_of_ne_nil {acc : List Char} (h : acc ≠ []) (dates : List RangeDate) :
    dates.foldl pushDate acc = [','].intercalate (acc :: dates.map RangeDate.quoted) := by
  induction dates generalizing acc with
  | nil => rw [List.foldl_nil, List.map_nil, List.intercalate_singleton]
  | cons date dates ih =>
    have hpush : pushDate acc date = (acc ++ [',']) ++ date.quoted := by
      rw [pushDate, if_neg (by simpa using h)]
    rw [List.foldl_cons, hpush, ih (by simp), intercalate_append_cons, List.map_cons,
      List.intercalate_cons_cons]

theorem foldl_pushDate (dates : List RangeDate) :
    dates.foldl pushDate [] = [','].intercalate (dates.map RangeDate.quoted) := by
  cases dates with
  | nil => rfl
  | cons date dates => exact foldl_pushDate_of_ne_nil (List.cons_ne_nil _ _) dates

theorem buildDates_eq (startYear endYear : Int) (granularity : String) :
    buildDates startYear endYear granularity =
      (rangeDates startYear endYear granularity).foldl pushDate [] := by
  unfold buildDates rangeDates
  split
  · simp only [List.foldl_flatMap, List.foldl_map]
  · split
    · simp only [List.foldl_flatMap, List.foldl_map]
    · rw [List.foldl_map]

/-- The text is the list of the boundaries. -/
theorem buildRangeSpec_eq (startYear endYear : Int) (granularity : String) :
    buildRangeSpec startYear endYear granularity =
      specText (rangeDates startYear endYear granularity) := by
  unfold buildRangeSpec specText
  rw [buildDates_eq, foldl_pushDate]

/-! ## The boundaries -/

def RangeDate.ofDate (date : Date) : RangeDate := ⟨date.year, date.month, date.day⟩

/-- The number of a boundary's day. -/
def RangeDate.utcDays (date : RangeDate) : Int := utcDaysFromEpoch date.year date.month date.day

theorem years_eq (a n : Nat) :
    years a (a + n - 1 : Int) = (List.range' a n).map fun y : Nat => (y : Int) := by
  have hlen : ((a + n - 1 : Int) + 1 - a).toNat = n := by omega
  rw [years, hlen, List.range'_eq_map_range, List.map_map]
  rfl

theorem daysInMonthOf_eq (year : Nat) {m : Nat} (h : 1 ≤ m) (h' : m ≤ 12) :
    daysInMonthOf year m = daysInMonth year m := by
  have hleap : (((year : Int).tmod 4 = 0 ∧ (year : Int).tmod 100 ≠ 0) ∨ (year : Int).tmod 400 = 0) ↔
      isLeap year = true := by
    rw [← leap_iff, Int.tmod_eq_emod_of_nonneg (by omega), Int.tmod_eq_emod_of_nonneg (by omega),
      Int.tmod_eq_emod_of_nonneg (by omega)]
    omega
  simp only [daysInMonthOf, hleap]
  have hcases : m = 1 ∨ m = 2 ∨ m = 3 ∨ m = 4 ∨ m = 5 ∨ m = 6 ∨ m = 7 ∨ m = 8 ∨ m = 9 ∨ m = 10 ∨
      m = 11 ∨ m = 12 := by omega
  rcases hcases with rfl | rfl | rfl | rfl | rfl | rfl | rfl | rfl | rfl | rfl | rfl | rfl
  all_goals cases hl : isLeap year <;> simp [daysInMonth, hl]

theorem rangeDates_day (a n : Nat) :
    rangeDates a (a + n - 1 : Int) "day" = (calendar a n).map .ofDate := by
  rw [rangeDates, if_pos rfl, years_eq, List.flatMap_map, calendar, List.map_flatMap]
  refine List.flatMap_congr fun y _ => ?_
  rw [yearDates, List.map_flatMap]
  refine List.flatMap_congr fun m hm => ?_
  rw [List.mem_range'_1] at hm
  rw [monthDates, daysInMonthOf_eq y hm.1 (by omega), List.map_map]
  rfl

theorem RangeDate.ofDate_injective : Function.Injective RangeDate.ofDate := by
  intro d e h
  obtain ⟨hyear, hmonth, hday⟩ := RangeDate.mk.inj h
  exact Date.ext (Int.ofNat.inj hyear) hmonth hday

theorem utcDays_ofDate {date : Date} (h : date.Valid) :
    (RangeDate.ofDate date).utcDays = (toDays date : Int) - kEpochDay := utcDaysFromEpoch_eq h

theorem utcDays_newYear {year : Nat} (h : 1 ≤ year) :
    utcDaysFromEpoch year 1 1 = (monthFirst year 1 : Int) - kEpochDay := by
  have hutc := utcDays_ofDate (valid_newYear h)
  simp only [RangeDate.utcDays, RangeDate.ofDate, Int.natCast_one] at hutc
  rw [hutc, monthFirst]

/-- By days the boundaries are the days of the calendar, from the first day of the first year to the
last day of the last year, each once. -/
theorem rangeDates_day_enumerates (startYear endYear : Int) (h : 1 ≤ startYear)
    (h' : startYear ≤ endYear) :
    buildRangeSpec startYear endYear "day" = specText (rangeDates startYear endYear "day") ∧
    ((rangeDates startYear endYear "day").length : Int) =
      utcDaysFromEpoch (endYear + 1) 1 1 - utcDaysFromEpoch startYear 1 1 ∧
    (∀ (k : Nat) b, (rangeDates startYear endYear "day")[k]? = some b →
      (∃ date : Date, date.Valid ∧ b = .ofDate date) ∧
      b.utcDays = utcDaysFromEpoch startYear 1 1 + k) ∧
    (∀ date : Date, date.Valid → startYear ≤ date.year → date.year ≤ endYear →
      (rangeDates startYear endYear "day").count (.ofDate date) = 1) := by
  obtain ⟨a, rfl⟩ := Int.eq_ofNat_of_zero_le (by omega : 0 ≤ startYear)
  obtain ⟨n, hn⟩ := Int.eq_ofNat_of_zero_le (by omega : 0 ≤ endYear + 1 - a)
  obtain rfl : endYear = (a + n - 1 : Int) := by omega
  have ha : 1 ≤ a := by omega
  have hend : (a + n - 1 + 1 : Int) = ((a + n : Nat) : Int) := by omega
  refine ⟨buildRangeSpec_eq .., ?_⟩
  rw [rangeDates_day, hend, utcDays_newYear ha, utcDays_newYear (by omega : 1 ≤ a + n)]
  refine ⟨?_, fun k b hb => ?_, fun date hdate hle hlt => ?_⟩
  · have hmono := (map_toDays_calendar ha n).2
    rw [List.length_map, length_calendar ha]
    omega
  · rw [List.getElem?_map] at hb
    obtain ⟨date, hdate, rfl⟩ := Option.map_eq_some_iff.mp hb
    have hvalid := valid_of_mem_calendar ha (List.mem_of_getElem? hdate)
    refine ⟨⟨date, hvalid, rfl⟩, ?_⟩
    rw [utcDays_ofDate hvalid, toDays_getElem?_calendar ha hdate]
    omega
  · have hmem := mem_calendar hdate (by omega : a ≤ date.year) (by omega : date.year < a + n)
    exact List.count_eq_one_of_mem ((nodup_calendar ha n).map RangeDate.ofDate_injective)
      (List.mem_map_of_mem hmem)

/-- The leap day of 2024 is there once. -/
theorem leapDay_enumerated : (rangeDates 2023 2024 "day").count ⟨2024, 2, 29⟩ = 1 :=
  (rangeDates_day_enumerates 2023 2024 (by decide) (by decide)).2.2.2 ⟨2024, 2, 29⟩
    ⟨by decide, by decide, by decide, by decide⟩ (by decide) (by decide)

end DolphinDBSchema

end Sqc
