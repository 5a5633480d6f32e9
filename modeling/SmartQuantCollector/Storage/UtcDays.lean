import SmartQuantCollector.Lib.Gregorian
import SmartQuantCollector.Storage.TimestampUtil

/-! # `UtcDaysFromEpoch` and the calendar

`UtcDaysFromEpoch` counts the days of the years before, of the months before in a table, and the
leap day. For a date of the calendar this is its day number, counted from 1970-01-01
(`utcDaysFromEpoch_eq`). -/

namespace Sqc
open Gregorian

/-- The number of 1970-01-01 in the count of `Gregorian`. -/
def kEpochDay : Nat := 719468

example : toDays ⟨1970, 1, 1⟩ = kEpochDay := by decide

/-- The days of the years before a year, as `UtcDaysFromEpoch` counts them. -/
theorem days_before_year (y : Nat) :
    ((y + 1 : Nat) - 1 : Int) * 365 + ((y + 1 : Nat) - 1 : Int).tdiv 4 -
      ((y + 1 : Nat) - 1 : Int).tdiv 100 + ((y + 1 : Nat) - 1 : Int).tdiv 400 =
      (marchFirst y : Int) := by
  have hpred : ((y + 1 : Nat) - 1 : Int) = y := by omega
  rw [hpred, marchFirst, Int.tdiv_eq_ediv_of_nonneg (by omega),
    Int.tdiv_eq_ediv_of_nonneg (by omega), Int.tdiv_eq_ediv_of_nonneg (by omega)]
  omega

theorem leap_iff (year : Nat) :
    ((year : Int).tmod 4 = 0 ∧ ((year : Int).tmod 100 ≠ 0 ∨ (year : Int).tmod 400 = 0)) ↔
      isLeap year = true := by
  rw [isLeap_iff, Int.tmod_eq_emod_of_nonneg (by omega), Int.tmod_eq_emod_of_nonneg (by omega),
    Int.tmod_eq_emod_of_nonneg (by omega)]
  omega

/-- The days of the months before a month. -/
theorem days_before_month {y month : Nat} (h : 1 ≤ month) (h' : month ≤ 12) :
    kMonthDays.getD ((month : Int) - 1).toNat 0 +
      (if isLeap (y + 1) = true ∧ (month : Int) > 2 then 1 else 0) =
      (monthFirst (y + 1) month : Int) - monthFirst (y + 1) 1 := by
  have hjan : (monthStart (1 + 9) : Int) = 306 := rfl
  rw [monthFirst_of_le (by decide : 1 ≤ 2), Nat.add_sub_cancel]
  rcases Nat.lt_or_ge 2 month with hgt | hle
  · -- the table starts with January and `monthStart` with March
    have htable : kMonthDays.getD ((month : Int) - 1).toNat 0 = 59 + monthStart (month - 3) := by
      have hcases : month = 3 ∨ month = 4 ∨ month = 5 ∨ month = 6 ∨ month = 7 ∨ month = 8 ∨
          month = 9 ∨ month = 10 ∨ month = 11 ∨ month = 12 := by omega
      rcases hcases with rfl | rfl | rfl | rfl | rfl | rfl | rfl | rfl | rfl | rfl <;> rfl
    rw [monthFirst_of_lt hgt, marchFirst_succ, htable]
    simp only [(by omega : (month : Int) > 2), and_true]
    split <;> omega
  · have htable : kMonthDays.getD ((month : Int) - 1).toNat 0 + 306 = monthStart (month + 9) := by
      have hcases : month = 1 ∨ month = 2 := by omega
      rcases hcases with rfl | rfl <;> rfl
    rw [monthFirst_of_le hle, Nat.add_sub_cancel, if_neg (by omega)]
    omega

theorem utcDaysFromEpoch_eq {date : Date} (h : date.Valid) :
    utcDaysFromEpoch date.year date.month date.day = (toDays date : Int) - kEpochDay := by
  obtain ⟨y, hy⟩ := Nat.exists_eq_add_of_le' h.year
  simp only [utcDaysFromEpoch, leap_iff]
  have hmonth := days_before_month (y := y) h.month.1 h.month.2
  have hyear := days_before_year y
  have hjan : monthFirst (y + 1) 1 = marchFirst y + 306 := monthFirst_of_le (by decide)
  have hday := h.day.1
  rw [← hy] at hmonth hyear hjan
  rw [hyear, toDays_eq hday]
  simp only [kEpochDay]
  omega

end Sqc
