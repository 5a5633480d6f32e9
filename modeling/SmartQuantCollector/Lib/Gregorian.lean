import Mathlib.Data.Nat.Basic

/-! # Dates of day numbers

The proleptic Gregorian calendar in eras of 400 years, or 146097 days, counted from the first of
March of year 0. A year of an era starts in March, so that the leap day is its last day, and its
months alternate as multiples of 153 days for five of them. `ofDays` computes the date of a day
number and `toDays` is its inverse: the dates from year 1 on that a calendar has (`Date.Valid`) are
those of the day numbers, in the same order. -/

namespace Gregorian

@[ext] structure Date where
  year : Nat
  month : Nat
  day : Nat
deriving DecidableEq

/-- The first day of a year of an era. -/
def yearStart (yoe : Nat) : Nat := 365 * yoe + yoe / 4 - yoe / 100

/-- The year of an era in which a day of it lies. -/
def yearOfEra (doe : Nat) : Nat := (doe - doe / 1460 + doe / 36524 - doe / 146096) / 365

/-- The first day of a month, counted from March. -/
def monthStart (mp : Nat) : Nat := (153 * mp + 2) / 5

def monthOfYear (doy : Nat) : Nat := (5 * doy + 2) / 153

/-- The date of the day `z`. -/
def ofDays (z : Nat) : Date :=
  let era := z / 146097
  let doe := z - era * 146097
  let yoe := yearOfEra doe
  let doy := doe - yearStart yoe
  let mp := monthOfYear doy
  let month := if mp < 10 then mp + 3 else mp - 9
  ⟨yoe + era * 400 + (if month ≤ 2 then 1 else 0), month, doy - monthStart mp + 1⟩

/-- The number of the day with a date. -/
def toDays (date : Date) : Nat :=
  let year := if date.month ≤ 2 then date.year - 1 else date.year
  let mp := if date.month ≤ 2 then date.month + 9 else date.month - 3
  year / 400 * 146097 + yearStart (year % 400) + monthStart mp + date.day - 1

theorem yearOfEra_of_lt {doe : Nat} (h : doe < 146096) :
    yearOfEra doe ≤ 399 ∧ yearStart (yearOfEra doe) ≤ doe ∧
      doe ≤ yearStart (yearOfEra doe) + 365 := by
  obtain ⟨c, hc⟩ : ∃ c, c = doe / 36524 := ⟨_, rfl⟩
  obtain ⟨g, hg⟩ : ∃ g, g = doe / 1460 := ⟨_, rfl⟩
  obtain ⟨y, hy⟩ : ∃ y, y = yearOfEra doe := ⟨_, rfl⟩
  have hyear : y = (doe - g + c) / 365 := by
    rw [hy, yearOfEra, ← hc, ← hg, Nat.div_eq_of_lt h, Nat.sub_zero]
  obtain ⟨a, ha⟩ : ∃ a, a = y / 4 := ⟨_, rfl⟩
  obtain ⟨q, hq⟩ : ∃ q, q = y / 100 := ⟨_, rfl⟩
  rw [← hy, yearStart, ← ha, ← hq]
  -- centuries and leap years before `doe` and before the year differ by at most one
  have hcentury : c ≤ 3 ∧ 25 * c ≤ g ∧ 36524 * c ≤ doe ∧ doe < 36524 * c + 36524 := by omega
  have hleap : 1460 * g ≤ doe ∧ doe < 1460 * g + 1460 := by omega
  have hbounds : 365 * y ≤ doe - g + c ∧ doe - g + c < 365 * y + 365 := by omega
  have hquarter : 4 * a ≤ y ∧ y < 4 * a + 4 ∧ 25 * q ≤ a ∧ a < 25 * q + 25 := by omega
  clear hc hg hyear ha hq hy
  have hag : a ≤ g := by omega
  have hga : g ≤ a + 1 := by omega
  have hqc : q ≤ c := by omega
  have hcq : c ≤ q + 1 := by omega
  omega

theorem yearOfEra_spec {doe : Nat} (h : doe < 146097) :
    yearOfEra doe ≤ 399 ∧ yearStart (yearOfEra doe) ≤ doe ∧
      doe ≤ yearStart (yearOfEra doe) + 365 := by
  rcases Nat.lt_succ_iff_lt_or_eq.mp h with hlt | rfl
  · exact yearOfEra_of_lt hlt
  · decide

theorem monthOfYear_spec {doy : Nat} (h : doy ≤ 365) :
    monthOfYear doy ≤ 11 ∧ monthStart (monthOfYear doy) ≤ doy ∧
      doy ≤ monthStart (monthOfYear doy) + 30 := by
  unfold monthOfYear monthStart
  omega

theorem toDays_mk {era yoe mp day : Nat} (hyoe : yoe ≤ 399) (hmp : mp ≤ 11) :
    toDays ⟨yoe + era * 400 + (if (if mp < 10 then mp + 3 else mp - 9) ≤ 2 then 1 else 0),
      if mp < 10 then mp + 3 else mp - 9, day + 1⟩ =
      era * 146097 + yearStart yoe + monthStart mp + day := by
  have hdiv : (yoe + era * 400) / 400 = era := by omega
  have hmod : (yoe + era * 400) % 400 = yoe := by omega
  rcases Nat.lt_or_ge mp 10 with hlt | hge
  · have hmonth : ¬mp + 3 ≤ 2 := by omega
    simp only [toDays, if_pos hlt, if_neg hmonth, Nat.add_zero, Nat.add_sub_cancel, hdiv, hmod]
    omega
  · have hnot : ¬mp < 10 := by omega
    have hmonth : mp - 9 ≤ 2 := by omega
    have hback : mp - 9 + 9 = mp := by omega
    simp only [toDays, if_neg hnot, if_pos hmonth, Nat.add_sub_cancel, hdiv, hmod, hback]
    omega

theorem toDays_ofDays (z : Nat) : toDays (ofDays z) = z := by
  have hdoe : z - z / 146097 * 146097 < 146097 := by omega
  obtain ⟨hyoe, hstart, hend⟩ := yearOfEra_spec hdoe
  have hdoy : z - z / 146097 * 146097 - yearStart (yearOfEra (z - z / 146097 * 146097)) ≤ 365 := by
    omega
  obtain ⟨hmp, hmonth, -⟩ := monthOfYear_spec hdoy
  rw [ofDays, toDays_mk hyoe hmp]
  omega

theorem ofDays_inj {z z' : Nat} (h : ofDays z = ofDays z') : z = z' := by
  rw [← toDays_ofDays z, h, toDays_ofDays]

/-- A date is in the ranges that two digits for months and days need. -/
theorem ofDays_bounds (z : Nat) : 1 ≤ (ofDays z).month ∧ (ofDays z).month ≤ 12 ∧
    1 ≤ (ofDays z).day ∧ (ofDays z).day ≤ 31 := by
  have hdoe : z - z / 146097 * 146097 < 146097 := by omega
  obtain ⟨-, hstart, hend⟩ := yearOfEra_spec hdoe
  have hdoy : z - z / 146097 * 146097 - yearStart (yearOfEra (z - z / 146097 * 146097)) ≤ 365 := by
    omega
  obtain ⟨hmp, -, hday⟩ := monthOfYear_spec hdoy
  refine ⟨?_, ?_, Nat.le_add_left _ _, ?_⟩
  · simp only [ofDays]
    split <;> omega
  · simp only [ofDays]
    split <;> omega
  · simp only [ofDays]
    omega

/-- The last day of the year 9999 is the last day with four digits for its year. -/
theorem ofDays_year_le {z : Nat} (h : z ≤ 3652364) : (ofDays z).year ≤ 9999 := by
  obtain ⟨doe, hdoe⟩ : ∃ doe, doe = z - z / 146097 * 146097 := ⟨_, rfl⟩
  obtain ⟨hyoe, hstart, -⟩ := yearOfEra_spec (by omega : doe < 146097)
  simp only [ofDays, ← hdoe]
  rcases Nat.lt_or_ge (yearOfEra doe + z / 146097 * 400) 9999 with hlt | hge
  · split <;> split <;> omega
  · -- the last year of the era, up to its December
    have hyear : yearOfEra doe = 399 := by omega
    have hdoy : doe - yearStart 399 ≤ 305 := by
      unfold yearStart
      omega
    have hmp : monthOfYear (doe - yearStart 399) < 10 := by
      unfold monthOfYear
      omega
    rw [hyear, if_pos hmp, if_neg (by omega)]
    omega

/-! ## Valid dates -/

def isLeap (year : Nat) : Bool := year % 4 = 0 && (year % 100 ≠ 0 || year % 400 = 0)

def daysInMonth (year month : Nat) : Nat :=
  if month = 2 then if isLeap year then 29 else 28
  else if month = 4 ∨ month = 6 ∨ month = 9 ∨ month = 11 then 30
  else 31

/-- A date of the years from 1 on. -/
structure Date.Valid (date : Date) : Prop where
  year : 1 ≤ date.year
  month : 1 ≤ date.month ∧ date.month ≤ 12
  day : 1 ≤ date.day ∧ date.day ≤ daysInMonth date.year date.month

theorem isLeap_iff (year : Nat) :
    isLeap year = true ↔ year % 4 = 0 ∧ (year % 100 ≠ 0 ∨ year % 400 = 0) := by
  simp [isLeap]

theorem isLeap_add_mul (year era : Nat) : isLeap (year + era * 400) = isLeap year := by
  rw [Bool.eq_iff_iff, isLeap_iff, isLeap_iff]
  omega

theorem daysInMonth_le (year month : Nat) : daysInMonth year month ≤ 31 := by
  unfold daysInMonth
  split <;> split <;> omega

/-- The year of an era ends before the next one starts. -/
theorem lt_yearStart_succ {doe : Nat} (h : doe < 146097) (hlast : yearOfEra doe < 399) :
    doe < yearStart (yearOfEra doe + 1) := by
  have hlt : doe < 146096 := by
    rcases Nat.lt_succ_iff_lt_or_eq.mp h with hlt | rfl
    · exact hlt
    · exact absurd hlast (by decide)
  obtain ⟨-, hstart, hend⟩ := yearOfEra_spec h
  obtain ⟨c, hc⟩ : ∃ c, c = doe / 36524 := ⟨_, rfl⟩
  obtain ⟨g, hg⟩ : ∃ g, g = doe / 1460 := ⟨_, rfl⟩
  obtain ⟨y, hy⟩ : ∃ y, y = yearOfEra doe := ⟨_, rfl⟩
  have hyear : y = (doe - g + c) / 365 := by
    rw [hy, yearOfEra, ← hc, ← hg, Nat.div_eq_of_lt hlt, Nat.sub_zero]
  obtain ⟨a, ha⟩ : ∃ a, a = (y + 1) / 4 := ⟨_, rfl⟩
  obtain ⟨q, hq⟩ : ∃ q, q = (y + 1) / 100 := ⟨_, rfl⟩
  rw [← hy] at hstart hend hlast ⊢
  rw [yearStart, ← ha, ← hq]
  have hcentury : c ≤ 3 ∧ 25 * c ≤ g ∧ 36524 * c ≤ doe ∧ doe < 36524 * c + 36524 := by omega
  have hleap : 1460 * g ≤ doe ∧ doe < 1460 * g + 1460 := by omega
  have hbounds : 365 * y ≤ doe - g + c ∧ doe - g + c < 365 * y + 365 := by omega
  have hquarter : 4 * a ≤ y + 1 ∧ y + 1 < 4 * a + 4 ∧ 25 * q ≤ a ∧ 100 * q ≤ y + 1 := by omega
  clear hc hg hyear hy ha hq hstart hend
  -- a century that begins with the next year has not begun yet
  rcases Nat.lt_or_ge c q with hcq | hqc
  · omega
  · have hga : g ≤ a := by omega
    omega

/-- Only a year before a leap year has a day 365. -/
theorem isLeap_of_yearStart {doe : Nat} (h : doe < 146097)
    (hday : doe = yearStart (yearOfEra doe) + 365) : isLeap (yearOfEra doe + 1) = true := by
  obtain ⟨hyoe, -, -⟩ := yearOfEra_spec h
  rw [isLeap_iff]
  rcases Nat.lt_or_eq_of_le hyoe with hlt | heq
  · have hnext := lt_yearStart_succ h hlt
    obtain ⟨y, hy⟩ : ∃ y, y = yearOfEra doe := ⟨_, rfl⟩
    rw [← hy] at hday hnext ⊢
    have hquarter : (y + 1) / 4 = y / 4 ∨ (y + 1) / 4 = y / 4 + 1 ∧ (y + 1) % 4 = 0 := by omega
    have hcentury : (y + 1) / 100 = y / 100 ∧ (y + 1) % 100 ≠ 0 ∨
        (y + 1) / 100 = y / 100 + 1 := by omega
    unfold yearStart at hday hnext
    omega
  · rw [heq]
    decide

/-- The days of a month, counted from March, are below its length. -/
theorem monthOfYear_day_lt {doy : Nat} (h : doy ≤ 365) (year : Nat)
    (hleap : doy = 365 → isLeap year = true) :
    doy - monthStart (monthOfYear doy) + 1 ≤ daysInMonth year
      (if monthOfYear doy < 10 then monthOfYear doy + 3 else monthOfYear doy - 9) := by
  obtain ⟨mp, hmp⟩ : ∃ mp, mp = monthOfYear doy := ⟨_, rfl⟩
  rw [← hmp]
  have hspec : 153 * mp ≤ 5 * doy + 2 ∧ 5 * doy + 2 < 153 * mp + 153 := by
    unfold monthOfYear at hmp
    omega
  clear hmp
  unfold monthStart daysInMonth
  cases hl : isLeap year with
  | true =>
    simp only [if_true]
    repeat' split
    all_goals omega
  | false =>
    have hne : doy ≠ 365 := fun heq => by rw [hleap heq] at hl; cases hl
    simp only [Bool.false_eq_true, if_false]
    repeat' split
    all_goals omega

theorem ofDays_valid {z : Nat} (h : 306 ≤ z) : (ofDays z).Valid := by
  obtain ⟨doe, hdoe⟩ : ∃ doe, doe = z - z / 146097 * 146097 := ⟨_, rfl⟩
  have hlt : doe < 146097 := by omega
  obtain ⟨hyoe, hstart, hend⟩ := yearOfEra_spec hlt
  obtain ⟨doy, hdoy⟩ : ∃ doy, doy = doe - yearStart (yearOfEra doe) := ⟨_, rfl⟩
  obtain ⟨hmp, -, -⟩ := monthOfYear_spec (by omega : doy ≤ 365)
  obtain ⟨hm1, hm12, hd1, -⟩ := ofDays_bounds z
  refine ⟨?_, ⟨hm1, hm12⟩, hd1, ?_⟩
  · simp only [ofDays, ← hdoe, ← hdoy]
    -- the first year of the calendar starts in March
    rcases Nat.eq_zero_or_pos (yearOfEra doe + z / 146097 * 400) with hzero | hpos
    · have hyear : yearOfEra doe = 0 := by omega
      have hera : z / 146097 = 0 := by omega
      have hmonth : 10 ≤ monthOfYear doy := by
        rw [hdoy, hyear, hdoe, hera]
        unfold monthOfYear yearStart
        omega
      have hnot : ¬ monthOfYear doy < 10 := by omega
      simp only [if_neg hnot]
      rw [if_pos (by omega)]
      omega
    · omega
  · simp only [ofDays, ← hdoe, ← hdoy]
    refine monthOfYear_day_lt (by omega) _ fun h365 => ?_
    have hleap := isLeap_of_yearStart hlt (by omega)
    have hmonth : monthOfYear doy = 11 := by
      rw [h365]
      decide
    simp only [hmonth]
    rw [if_pos (by decide), Nat.add_right_comm, isLeap_add_mul]
    exact hleap

/-! ## The order of days -/

/-- The first of March of a year. -/
def marchFirst (year : Nat) : Nat := 365 * year + year / 4 - year / 100 + year / 400

theorem marchFirst_eq (year : Nat) :
    marchFirst year = year / 400 * 146097 + yearStart (year % 400) := by
  unfold marchFirst yearStart
  omega

theorem marchFirst_succ (year : Nat) : marchFirst (year + 1) =
    marchFirst year + 365 + if isLeap (year + 1) then 1 else 0 := by
  have hle : year / 100 ≤ year / 4 := Nat.div_le_div_left (by decide) (by decide)
  unfold marchFirst
  rw [if_congr (isLeap_iff (year + 1)) rfl rfl, Nat.succ_div, Nat.succ_div, Nat.succ_div]
  simp only [Nat.dvd_iff_mod_eq_zero]
  have h100 : (year + 1) % 100 = 0 → (year + 1) % 4 = 0 := by omega
  have h400 : (year + 1) % 400 = 0 → (year + 1) % 100 = 0 := by omega
  generalize year / 4 = a at *
  generalize year / 100 = b at *
  generalize year / 400 = c at *
  generalize (year + 1) % 4 = p at *
  generalize (year + 1) % 100 = q at *
  generalize (year + 1) % 400 = r at *
  repeat' split
  all_goals omega

/-- The first day of a month. -/
def monthFirst (year month : Nat) : Nat := toDays ⟨year, month, 1⟩

theorem toDays_eq {date : Date} (h : 1 ≤ date.day) :
    toDays date = monthFirst date.year date.month + (date.day - 1) := by
  simp only [monthFirst, toDays]
  omega

theorem monthFirst_of_le {year month : Nat} (h : month ≤ 2) :
    monthFirst year month = marchFirst (year - 1) + monthStart (month + 9) := by
  simp only [monthFirst, toDays, if_pos h, marchFirst_eq]
  omega

theorem monthFirst_of_lt {year month : Nat} (h : 2 < month) :
    monthFirst year month = marchFirst year + monthStart (month - 3) := by
  simp only [monthFirst, toDays, if_neg (Nat.not_le.mpr h), marchFirst_eq]
  omega

theorem monthFirst_succ {year month : Nat} (hy : 1 ≤ year) (h : 1 ≤ month) (h' : month < 12) :
    monthFirst year (month + 1) = monthFirst year month + daysInMonth year month := by
  rcases Nat.lt_trichotomy month 2 with hlt | rfl | hgt
  · obtain rfl : month = 1 := by omega
    rw [monthFirst_of_le (by decide), monthFirst_of_le (by decide), Nat.add_assoc]
    rfl
  · -- the leap day lies before March
    obtain ⟨y, rfl⟩ := Nat.exists_eq_add_of_le' hy
    rw [monthFirst_of_lt (by decide), monthFirst_of_le (by decide), marchFirst_succ]
    simp only [daysInMonth, monthStart, Nat.add_sub_cancel, if_true]
    split <;> omega
  · rw [monthFirst_of_lt hgt, monthFirst_of_lt (by omega)]
    have hmonth : month = 3 ∨ month = 4 ∨ month = 5 ∨ month = 6 ∨ month = 7 ∨ month = 8 ∨
        month = 9 ∨ month = 10 ∨ month = 11 := by omega
    rw [Nat.add_assoc]
    rcases hmonth with rfl | rfl | rfl | rfl | rfl | rfl | rfl | rfl | rfl <;> rfl

theorem monthFirst_newYear (year : Nat) : monthFirst (year + 1) 1 = monthFirst year 12 + 31 := by
  rw [monthFirst_of_le (by decide), monthFirst_of_lt (by decide), Nat.add_sub_cancel,
    Nat.add_assoc]
  rfl

theorem monthFirst_strictMono {year m m' : Nat} (hy : 1 ≤ year) (h : 1 ≤ m) (hlt : m < m')
    (h' : m' ≤ 12) : monthFirst year m + daysInMonth year m ≤ monthFirst year m' := by
  induction m', hlt using Nat.le_induction with
  | base => exact Nat.le_of_eq (monthFirst_succ hy h h').symm
  | succ k hk ih =>
    rw [monthFirst_succ hy (by omega) h']
    exact Nat.le_add_right_of_le (ih (by omega))

/-- Every month of a year lies before the next year. -/
theorem monthFirst_le_newYear {year m : Nat} (hy : 1 ≤ year) (h : 1 ≤ m) (h' : m ≤ 12) :
    monthFirst year m + daysInMonth year m ≤ monthFirst (year + 1) 1 := by
  rw [monthFirst_newYear]
  rcases Nat.lt_or_eq_of_le h' with hlt | rfl
  · exact Nat.le_add_right_of_le (monthFirst_strictMono hy h hlt (Nat.le_refl _))
  · exact Nat.le_refl _

theorem yearFirst_mono {y y' : Nat} (hy : 1 ≤ y) (h : y ≤ y') :
    monthFirst y 1 ≤ monthFirst y' 1 := by
  induction y', h using Nat.le_induction with
  | base => exact Nat.le_refl _
  | succ k hk ih =>
    have := monthFirst_le_newYear (by omega : 1 ≤ k) (Nat.le_refl 1) (by decide)
    omega

/-- Earlier in the order of year, month and day. -/
def Date.Before (d e : Date) : Prop :=
  d.year < e.year ∨ d.year = e.year ∧ (d.month < e.month ∨ d.month = e.month ∧ d.day < e.day)

theorem toDays_lt_monthEnd {d : Date} (h : d.Valid) :
    toDays d < monthFirst d.year d.month + daysInMonth d.year d.month := by
  obtain ⟨hday1, hday⟩ := h.day
  rw [toDays_eq hday1]
  omega

theorem toDays_lt {d e : Date} (hd : d.Valid) (he : e.Valid) (h : d.Before e) :
    toDays d < toDays e := by
  have hstart : monthFirst e.year e.month ≤ toDays e := by
    rw [toDays_eq he.day.1]
    exact Nat.le_add_right ..
  have hend := toDays_lt_monthEnd hd
  rcases h with hyear | ⟨hyear, hmonth | ⟨hmonth, hday⟩⟩
  · have hnext := monthFirst_le_newYear hd.year hd.month.1 hd.month.2
    have hmono := yearFirst_mono (by omega : 1 ≤ d.year + 1) hyear
    have hfirst : monthFirst e.year 1 ≤ monthFirst e.year e.month := by
      rcases Nat.lt_or_eq_of_le he.month.1 with hlt | heq
      · have := monthFirst_strictMono he.year (Nat.le_refl 1) hlt he.month.2
        omega
      · rw [← heq]
    omega
  · have := monthFirst_strictMono hd.year hd.month.1 hmonth he.month.2
    rw [hyear] at this hend
    omega
  · have := hd.day.1
    rw [toDays_eq hd.day.1, toDays_eq he.day.1, hyear, hmonth]
    omega

theorem Date.before_trichotomy (d e : Date) : d.Before e ∨ d = e ∨ e.Before d := by
  rw [Date.ext_iff]
  unfold Date.Before
  omega

/-- Later days have later dates. -/
theorem ofDays_before {z z' : Nat} (h : 306 ≤ z) (hlt : z < z') :
    (ofDays z).Before (ofDays z') := by
  rcases (ofDays z).before_trichotomy (ofDays z') with hbefore | heq | hafter
  · exact hbefore
  · exact absurd (ofDays_inj heq) (Nat.ne_of_lt hlt)
  · have := toDays_lt (ofDays_valid (by omega)) (ofDays_valid h) hafter
    rw [toDays_ofDays, toDays_ofDays] at this
    omega

theorem valid_newYear {year : Nat} (h : 1 ≤ year) : (⟨year, 1, 1⟩ : Date).Valid :=
  ⟨h, by simp, by simp [daysInMonth]⟩

/-- The years of the days from the first of January on. -/
theorem le_year_iff {z year : Nat} (hz : 306 ≤ z) (h : 1 ≤ year) :
    year ≤ (ofDays z).year ↔ monthFirst year 1 ≤ z := by
  have hvalid := ofDays_valid hz
  constructor
  · intro hle
    have hfirst : monthFirst (ofDays z).year 1 ≤ toDays (ofDays z) := by
      rcases Nat.lt_or_eq_of_le hvalid.month.1 with hlt | heq
      · have := monthFirst_strictMono hvalid.year (Nat.le_refl 1) hlt hvalid.month.2
        rw [toDays_eq hvalid.day.1]
        omega
      · rw [toDays_eq hvalid.day.1, ← heq]
        exact Nat.le_add_right ..
    rw [toDays_ofDays] at hfirst
    exact Nat.le_trans (yearFirst_mono h hle) hfirst
  · intro hle
    apply Nat.le_of_not_lt
    intro hlt
    have := toDays_lt hvalid (valid_newYear h) (.inl hlt)
    rw [toDays_ofDays] at this
    exact absurd hle (Nat.not_le.mpr this)

end Gregorian
