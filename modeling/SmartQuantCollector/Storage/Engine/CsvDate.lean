import SmartQuantCollector.Lib.Csv
import SmartQuantCollector.Lib.Gregorian
import SmartQuantCollector.Storage.TimestampUtil

/-! # The date in the name of a CSV file (`src/storage/engine/csv_writer.cpp`)

`TimestampToDate` computes in `uint64_t`; up to the year 9999 nothing wraps around and no clamp is
effective, so that each day has a date of its own (`dateText_inj`). -/

namespace Sqc

/-- `%0<width>u`. -/
def padded (width n : Nat) : List Char := (Nat.toDigits 10 n).leftpad width '0'

/-- Year, month and day as `TimestampToDate` computes them, before the clamps. -/
def civilFromDays (days : UInt64) : UInt64 × UInt64 × UInt64 :=
  let z := days + 719468
  let era := z / 146097
  let doe := z - era * 146097
  let yoe := (doe - doe / 1460 + doe / 36524 - doe / 146096) / 365
  let y := yoe + era * 400
  let doy := doe - (365 * yoe + yoe / 4 - yoe / 100)
  let mp := (5 * doy + 2) / 153
  let d := doy - (153 * mp + 2) / 5 + 1
  let m := mp + (if mp < 10 then 3 else -9)
  (y + (if m ≤ 2 then 1 else 0), m, d)

def clamp (v lo hi : UInt64) : UInt64 := if v < lo then lo else if hi < v then hi else v

/-- The date of a day, as `TimestampToDate` prints it. -/
def dateText (days : UInt64) : List Char :=
  let (y, m, d) := civilFromDays days
  let year := min y 9999
  let month := clamp m 1 12
  let day := clamp d 1 31
  padded 4 year.toNat ++ '-' :: (padded 2 month.toNat ++ '-' :: padded 2 day.toNat)

def timestampToDate (usec : UInt64) : List Char := dateText (usec / kUsecsPerDay)

/-- The last day of the year 9999. -/
def kLastCsvDay : UInt64 := 2932896

/-! ## Digits -/

theorem ofDigitChars_padded (width n : Nat) : Nat.ofDigitChars 10 (padded width n) 0 = n := by
  have hzeros : ∀ k, Nat.ofDigitChars 10 (List.replicate k '0') 0 = 0 := by
    intro k
    induction k with
    | zero => rfl
    | succ k ih =>
      rw [List.replicate_succ, Nat.ofDigitChars_cons]
      exact ih
  rw [padded, List.leftpad, Nat.ofDigitChars_append, hzeros,
    Nat.ofDigitChars_ten_toDigits]

theorem padded_inj {width m n : Nat} (h : padded width m = padded width n) : m = n := by
  rw [← ofDigitChars_padded width m, h, ofDigitChars_padded]

theorem dash_notMem_padded (width n : Nat) : '-' ∉ padded width n := by
  rw [padded, List.leftpad, List.mem_append]
  rintro (h | h)
  · cases List.eq_of_mem_replicate h
  · have := Nat.isDigit_of_mem_toDigits (by decide) (by decide) h
    revert this
    decide

theorem append_dash_inj {width m n : Nat} {r r' : List Char}
    (h : padded width m ++ '-' :: r = padded width n ++ '-' :: r') : m = n ∧ r = r' := by
  obtain ⟨hdigits, hr⟩ :=
    Csv.append_cons_inj (dash_notMem_padded width m) (dash_notMem_padded width n) h
  exact ⟨padded_inj hdigits, hr⟩

theorem clamp_of_mem {v lo hi : UInt64} (hlo : lo.toNat ≤ v.toNat) (hhi : v.toNat ≤ hi.toNat) :
    clamp v lo hi = v := by
  have hlo' := UInt64.not_lt.mpr (UInt64.le_iff_toNat_le.mpr hlo)
  have hhi' := UInt64.not_lt.mpr (UInt64.le_iff_toNat_le.mpr hhi)
  rw [clamp, if_neg hlo', if_neg hhi']

/-! ## Dates -/

theorem toNat_sub_of_toNat_le {a b : UInt64} (h : b.toNat ≤ a.toNat) :
    (a - b).toNat = a.toNat - b.toNat :=
  UInt64.toNat_sub_of_le a b (UInt64.le_iff_toNat_le.mpr h)

theorem toNat_yearOfEra {doe : UInt64} (h : doe.toNat < 146097) :
    ((doe - doe / 1460 + doe / 36524 - doe / 146096) / 365).toNat =
      Gregorian.yearOfEra doe.toNat := by
  have hleap : (doe - doe / 1460).toNat = doe.toNat - doe.toNat / 1460 :=
    toNat_sub_of_toNat_le (Nat.div_le_self ..)
  have hcentury : (doe - doe / 1460 + doe / 36524).toNat =
      doe.toNat - doe.toNat / 1460 + doe.toNat / 36524 := by
    rw [UInt64.toNat_add, hleap, UInt64.toNat_div]
    simp only [UInt64.reduceToNat]
    omega
  have hle : (doe / 146096).toNat ≤ (doe - doe / 1460 + doe / 36524).toNat := by
    rw [hcentury, UInt64.toNat_div]
    simp only [UInt64.reduceToNat]
    omega
  rw [UInt64.toNat_div, toNat_sub_of_toNat_le hle, hcentury, UInt64.toNat_div]
  rfl

theorem toNat_yearStart {yoe : UInt64} (h : yoe.toNat ≤ 399) :
    (365 * yoe + yoe / 4 - yoe / 100).toNat = Gregorian.yearStart yoe.toNat := by
  have hleap : (365 * yoe + yoe / 4).toNat = 365 * yoe.toNat + yoe.toNat / 4 := by
    rw [UInt64.toNat_add, UInt64.toNat_mul, UInt64.toNat_div]
    simp only [UInt64.reduceToNat]
    omega
  have hle : (yoe / 100).toNat ≤ (365 * yoe + yoe / 4).toNat := by
    rw [hleap, UInt64.toNat_div]
    simp only [UInt64.reduceToNat]
    omega
  rw [toNat_sub_of_toNat_le hle, hleap, UInt64.toNat_div]
  rfl

theorem toNat_monthOfYear {doy : UInt64} (h : doy.toNat ≤ 365) :
    ((5 * doy + 2) / 153).toNat = Gregorian.monthOfYear doy.toNat := by
  simp only [Gregorian.monthOfYear, UInt64.toNat_add, UInt64.toNat_mul, UInt64.toNat_div,
    UInt64.reduceToNat]
  omega

theorem toNat_monthStart {mp : UInt64} (h : mp.toNat ≤ 11) :
    ((153 * mp + 2) / 5).toNat = Gregorian.monthStart mp.toNat := by
  simp only [Gregorian.monthStart, UInt64.toNat_add, UInt64.toNat_mul, UInt64.toNat_div,
    UInt64.reduceToNat]
  omega

theorem toNat_month {mp : UInt64} (h : mp.toNat ≤ 11) :
    (mp + (if mp < 10 then 3 else -9)).toNat =
      if mp.toNat < 10 then mp.toNat + 3 else mp.toNat - 9 := by
  have hten : mp < 10 ↔ mp.toNat < 10 := UInt64.lt_iff_toNat_lt
  have hneg : (-9 : UInt64).toNat = 2 ^ 64 - 9 := by decide
  rcases Nat.lt_or_ge mp.toNat 10 with hlt | hge
  · rw [if_pos (hten.mpr hlt), if_pos hlt, UInt64.toNat_add]
    simp only [UInt64.reduceToNat]
    omega
  · have hnot : ¬mp.toNat < 10 := by omega
    rw [if_neg (mt hten.mp hnot), if_neg hnot, UInt64.toNat_add, hneg]
    omega

theorem toNat_day {doy mp : UInt64} (h : doy.toNat ≤ 365) (hmp : mp.toNat ≤ 11)
    (hstart : Gregorian.monthStart mp.toNat ≤ doy.toNat) :
    (doy - (153 * mp + 2) / 5 + 1).toNat = doy.toNat - Gregorian.monthStart mp.toNat + 1 := by
  rw [← toNat_monthStart hmp] at hstart ⊢
  rw [UInt64.toNat_add, toNat_sub_of_toNat_le hstart]
  simp only [UInt64.reduceToNat]
  omega

theorem civilFromDays_toNat {days : UInt64} (h : days ≤ kLastCsvDay) :
    (civilFromDays days).1.toNat = (Gregorian.ofDays (days.toNat + 719468)).year ∧
      (civilFromDays days).2.1.toNat = (Gregorian.ofDays (days.toNat + 719468)).month ∧
      (civilFromDays days).2.2.toNat = (Gregorian.ofDays (days.toNat + 719468)).day := by
  have hdays : days.toNat ≤ 2932896 := UInt64.le_iff_toNat_le.mp h
  obtain ⟨z, hz⟩ : ∃ z, z = days + 719468 := ⟨_, rfl⟩
  obtain ⟨era, hera⟩ : ∃ era, era = z / 146097 := ⟨_, rfl⟩
  obtain ⟨doe, hdoe⟩ : ∃ doe, doe = z - era * 146097 := ⟨_, rfl⟩
  have hzNat : z.toNat = days.toNat + 719468 := by
    rw [hz]
    simp only [UInt64.toNat_add, UInt64.reduceToNat]
    omega
  have heraNat : era.toNat = z.toNat / 146097 := by
    rw [hera, UInt64.toNat_div]
    rfl
  have hdoeNat : doe.toNat = z.toNat - era.toNat * 146097 := by
    have hmul : (era * 146097).toNat = era.toNat * 146097 := by
      rw [UInt64.toNat_mul]
      simp only [UInt64.reduceToNat]
      omega
    rw [hdoe, toNat_sub_of_toNat_le (by omega), hmul]
  have hlt : doe.toNat < 146097 := by omega
  obtain ⟨hyoe, hstart, hend⟩ := Gregorian.yearOfEra_spec hlt
  obtain ⟨yoe, hyoeEq⟩ : ∃ yoe, yoe = (doe - doe / 1460 + doe / 36524 - doe / 146096) / 365 :=
    ⟨_, rfl⟩
  have hyoeNat : yoe.toNat = Gregorian.yearOfEra doe.toNat := by
    rw [hyoeEq, toNat_yearOfEra hlt]
  obtain ⟨doy, hdoy⟩ : ∃ doy, doy = doe - (365 * yoe + yoe / 4 - yoe / 100) := ⟨_, rfl⟩
  have hdoyNat : doy.toNat = doe.toNat - Gregorian.yearStart yoe.toNat := by
    have hstart' := toNat_yearStart (hyoeNat ▸ hyoe)
    have hle : (365 * yoe + yoe / 4 - yoe / 100).toNat ≤ doe.toNat := by
      rw [hstart', hyoeNat]
      exact hstart
    rw [hdoy, toNat_sub_of_toNat_le hle, hstart']
  have hdoyLe : doy.toNat ≤ 365 := by
    rw [hdoyNat, hyoeNat]
    omega
  obtain ⟨hmpLe, hmonthStart, -⟩ := Gregorian.monthOfYear_spec hdoyLe
  obtain ⟨mp, hmp⟩ : ∃ mp, mp = (5 * doy + 2) / 153 := ⟨_, rfl⟩
  have hmpNat : mp.toNat = Gregorian.monthOfYear doy.toNat := by rw [hmp, toNat_monthOfYear hdoyLe]
  rw [← hmpNat] at hmpLe hmonthStart
  have hday := toNat_day hdoyLe hmpLe hmonthStart
  obtain ⟨month, hmonth⟩ : ∃ month, month = mp + (if mp < 10 then 3 else -9) := ⟨_, rfl⟩
  have hmonthNat := toNat_month hmpLe
  rw [← hmonth] at hmonthNat
  simp only [civilFromDays, Gregorian.ofDays, ← hz, ← hera, ← hdoe, ← hyoeEq, ← hdoy, ← hmp,
    ← hmonth, ← hzNat, ← heraNat, ← hdoeNat, ← hyoeNat, ← hdoyNat, ← hmpNat, ← hmonthNat]
  refine ⟨?_, trivial, hday⟩
  have htwo : month ≤ 2 ↔ month.toNat ≤ 2 := UInt64.le_iff_toNat_le
  have hera24 : era.toNat ≤ 25 := by omega
  have hyear : (yoe + era * 400).toNat = yoe.toNat + era.toNat * 400 := by
    rw [UInt64.toNat_add, UInt64.toNat_mul]
    simp only [UInt64.reduceToNat]
    omega
  rw [UInt64.toNat_add, hyear]
  simp only [htwo]
  split
  · simp only [UInt64.reduceToNat]
    omega
  · simp only [UInt64.reduceToNat]
    omega

/-- Up to the year 9999 the text is that of the date, with no clamp effective. -/
theorem dateText_eq {days : UInt64} (h : days ≤ kLastCsvDay) :
    ∃ date, date = Gregorian.ofDays (days.toNat + 719468) ∧
      dateText days =
        padded 4 date.year ++ '-' :: (padded 2 date.month ++ '-' :: padded 2 date.day) := by
  refine ⟨_, rfl, ?_⟩
  obtain ⟨hyear, hmonth, hday⟩ := civilFromDays_toNat h
  have hle : days.toNat ≤ 2932896 := UInt64.le_iff_toNat_le.mp h
  obtain ⟨hm1, hm12, hd1, hd31⟩ := Gregorian.ofDays_bounds (days.toNat + 719468)
  have hy := Gregorian.ofDays_year_le (by omega : days.toNat + 719468 ≤ 3652364)
  rw [← hyear] at hy
  rw [← hmonth] at hm1 hm12
  rw [← hday] at hd1 hd31
  have hmin : min (civilFromDays days).1 9999 = _ := if_pos (UInt64.le_iff_toNat_le.mpr hy)
  have hclampMonth : clamp (civilFromDays days).2.1 1 12 = _ := clamp_of_mem hm1 hm12
  have hclampDay : clamp (civilFromDays days).2.2 1 31 = _ := clamp_of_mem hd1 hd31
  simp only [dateText]
  rw [hmin, hclampMonth, hclampDay, hyear, hmonth, hday]

theorem dateText_inj {days days' : UInt64} (h : days ≤ kLastCsvDay) (h' : days' ≤ kLastCsvDay)
    (heq : dateText days = dateText days') : days = days' := by
  obtain ⟨date, hdate, htext⟩ := dateText_eq h
  obtain ⟨date', hdate', htext'⟩ := dateText_eq h'
  rw [htext, htext'] at heq
  obtain ⟨hyear, hrest⟩ := append_dash_inj heq
  obtain ⟨hmonth, hday⟩ := append_dash_inj hrest
  have hsame : date = date' := Gregorian.Date.ext hyear hmonth (padded_inj hday)
  rw [hdate, hdate'] at hsame
  exact UInt64.toNat_inj.mp (Nat.add_right_cancel (Gregorian.ofDays_inj hsame))

example : timestampToDate 1717200000000000 = "2024-06-01".toList := by decide

end Sqc
