import Mathlib.Algebra.Group.Nat.Defs
import SmartQuantCollector.Storage.Engine.CsvWriter
import SmartQuantCollector.Storage.UtcDays

/-! # CSV dates and day numbers

The date that `TimestampToDate` prints is the one whose `UtcDaysFromEpoch` is the day of the
timestamp. Year, month and day have fixed widths, so that the names of the files are in the order of
the days. -/

namespace Sqc
open Gregorian

/-! ## Numbers of fixed width -/

theorem lt_append_of_length_eq {l l' : List Char} (hlen : l.length = l'.length) (h : l < l')
    (r r' : List Char) : l ++ r < l' ++ r' := by
  induction l generalizing l' with
  | nil =>
    cases l' with
    | nil => exact absurd h (List.not_lt_nil _)
    | cons b l' => cases hlen
  | cons a l ih =>
    cases l' with
    | nil => cases hlen
    | cons b l' =>
      rw [List.cons_append, List.cons_append, List.cons_lt_cons_iff]
      rcases List.cons_lt_cons_iff.mp h with hab | ⟨hab, hl⟩
      · exact .inl hab
      · exact .inr ⟨hab, ih (Nat.succ.inj hlen) hl⟩

theorem padded_succ {width : Nat} (h : 1 ≤ width) (n : Nat) :
    padded (width + 1) n = padded width (n / 10) ++ [(n % 10).digitChar] := by
  rcases Nat.lt_or_ge n 10 with hlt | hge
  · rw [Nat.div_eq_of_lt hlt, Nat.mod_eq_of_lt hlt, padded, padded, Nat.toDigits_of_lt_base hlt,
      Nat.toDigits_of_lt_base (by decide)]
    obtain ⟨w, rfl⟩ := Nat.exists_eq_add_of_le' h
    simp [List.leftpad, List.replicate_succ', Nat.digitChar]
  · rw [padded, padded, Nat.toDigits_of_base_le (by decide) hge]
    simp [List.leftpad, Nat.add_sub_add_right]

theorem length_padded {width n : Nat} (h : 1 ≤ width) (hn : n < 10 ^ width) :
    (padded width n).length = width := by
  have hle := (Nat.length_toDigits_le_iff (b := 10) (by decide) h).mpr hn
  rw [padded, List.leftpad, List.length_append, List.length_replicate, Nat.sub_add_cancel hle]

theorem digitChar_lt {m n : Nat} (h : m < n) (hn : n < 10) : m.digitChar < n.digitChar := by
  have hall : ∀ n < 10, ∀ m < n, m.digitChar < n.digitChar := by decide
  exact hall n hn m h

theorem padded_lt {width m n : Nat} (h : 1 ≤ width) (hlt : m < n) (hn : n < 10 ^ width) :
    padded width m < padded width n := by
  induction width, h using Nat.le_induction generalizing m n with
  | base =>
    have hone : ∀ k < 10, padded 1 k = [k.digitChar] := by decide
    rw [hone n hn, hone m (Nat.lt_trans hlt hn), List.cons_lt_cons_iff]
    exact .inl (digitChar_lt hlt hn)
  | succ width hwidth ih =>
    rw [padded_succ hwidth, padded_succ hwidth]
    have hdiv : n / 10 < 10 ^ width := by
      rw [Nat.div_lt_iff_lt_mul (by decide), ← Nat.pow_succ]
      exact hn
    rcases Nat.lt_or_eq_of_le (Nat.div_le_div_right (c := 10) (Nat.le_of_lt hlt)) with hq | hq
    · refine lt_append_of_length_eq ?_ (ih hq hdiv) _ _
      rw [length_padded hwidth hdiv, length_padded hwidth (Nat.lt_trans hq hdiv)]
    · -- only the last digits differ
      rw [hq]
      refine List.append_left_lt (List.cons_lt_cons_iff.mpr (.inl (digitChar_lt ?_ ?_)))
      · omega
      · exact Nat.mod_lt _ (by decide)

/-! ## The dates -/

/-- `%04u-%02u-%02u`. -/
def dateChars (date : Date) : List Char :=
  padded 4 date.year ++ '-' :: (padded 2 date.month ++ '-' :: padded 2 date.day)

theorem day_lt_hundred {date : Date} (h : date.Valid) : date.day < 10 ^ 2 :=
  Nat.lt_of_le_of_lt (h.day.2.trans (daysInMonth_le ..)) (by decide)

theorem dateChars_lt {d e : Date} (hd : d.Valid) (he : e.Valid) (hyear : e.year ≤ 9999)
    (h : d.Before e) : dateChars d < dateChars e := by
  have hmonth (f : Date) (hf : f.Valid) : f.month < 10 ^ 2 :=
    Nat.lt_of_le_of_lt hf.month.2 (by decide)
  have hyear' : e.year < 10 ^ 4 := Nat.lt_of_le_of_lt hyear (by decide)
  rcases h with hy | ⟨hy, hm | ⟨hm, hday⟩⟩
  · refine lt_append_of_length_eq ?_ (padded_lt (by decide) hy hyear') _ _
    rw [length_padded (by decide) hyear', length_padded (by decide) (hy.trans hyear')]
  · rw [dateChars, dateChars, hy]
    refine List.append_left_lt (List.cons_lt_cons_self.mpr ?_)
    refine lt_append_of_length_eq ?_ (padded_lt (by decide) hm (hmonth e he)) _ _
    rw [length_padded (by decide) (hmonth e he), length_padded (by decide) (hmonth d hd)]
  · rw [dateChars, dateChars, hy, hm]
    refine List.append_left_lt (List.cons_lt_cons_self.mpr (List.append_left_lt ?_))
    exact List.cons_lt_cons_self.mpr (padded_lt (by decide) hday (day_lt_hundred he))

theorem length_dateChars {d : Date} (h : d.Valid) (hyear : d.year ≤ 9999) :
    (dateChars d).length = 10 := by
  have hy : (padded 4 d.year).length = 4 :=
    length_padded (by decide) (Nat.lt_of_le_of_lt hyear (by decide))
  have hm : (padded 2 d.month).length = 2 :=
    length_padded (by decide) (Nat.lt_of_le_of_lt h.month.2 (by decide))
  have hd : (padded 2 d.day).length = 2 := length_padded (by decide) (day_lt_hundred h)
  rw [dateChars]
  simp only [List.length_append, List.length_cons, hy, hm, hd]

/-- The date of a day since 1970-01-01. -/
def utcDate (days : UInt64) : Date := ofDays (days.toNat + kEpochDay)

theorem utcDate_valid (days : UInt64) : (utcDate days).Valid :=
  ofDays_valid (Nat.le_add_left_of_le (by decide))

theorem utcDate_year_le {days : UInt64} (h : days ≤ kLastCsvDay) : (utcDate days).year ≤ 9999 := by
  have hle : days.toNat ≤ 2932896 := UInt64.le_iff_toNat_le.mp h
  exact ofDays_year_le (by unfold kEpochDay; omega)

theorem dateText_eq_dateChars {days : UInt64} (h : days ≤ kLastCsvDay) :
    dateText days = dateChars (utcDate days) := by
  obtain ⟨date, rfl, htext⟩ := dateText_eq h
  exact htext

theorem utcDaysFromEpoch_utcDate (days : UInt64) :
    utcDaysFromEpoch (utcDate days).year (utcDate days).month (utcDate days).day = days.toNat := by
  rw [utcDaysFromEpoch_eq (utcDate_valid days), utcDate, toDays_ofDays]
  omega

theorem dateText_lt {days days' : UInt64} (h' : days' ≤ kLastCsvDay) (hlt : days < days') :
    dateText days < dateText days' := by
  have h : days ≤ kLastCsvDay := UInt64.le_of_lt (UInt64.lt_of_lt_of_le hlt h')
  rw [dateText_eq_dateChars h, dateText_eq_dateChars h']
  refine dateChars_lt (utcDate_valid _) (utcDate_valid _) (utcDate_year_le h') (ofDays_before ?_ ?_)
  · exact Nat.le_add_left_of_le (by decide)
  · exact Nat.add_lt_add_right (UInt64.lt_iff_toNat_lt.mp hlt) _

namespace CsvWriter

theorem exists_fileName_eq (kind : EventKind) :
    ∃ start, ∀ date, fileName kind date = start ++ (date ++ ".csv".toList) := by
  cases kind with
  | tick => exact ⟨"trades_".toList, fun _ => List.append_assoc ..⟩
  | depth => exact ⟨"orderbook_".toList, fun _ => List.append_assoc ..⟩
  | bookTicker => exact ⟨"bookticker_".toList, fun _ => List.append_assoc ..⟩

theorem fileName_lt {days days' : UInt64} (h' : days' ≤ kLastCsvDay) (hlt : days < days')
    (kind : EventKind) : fileName kind (dateText days) < fileName kind (dateText days') := by
  have h : days ≤ kLastCsvDay := UInt64.le_of_lt (UInt64.lt_of_lt_of_le hlt h')
  have hlen : (dateText days).length = (dateText days').length := by
    rw [dateText_eq_dateChars h, dateText_eq_dateChars h',
      length_dateChars (utcDate_valid _) (utcDate_year_le h),
      length_dateChars (utcDate_valid _) (utcDate_year_le h')]
  have happend := lt_append_of_length_eq hlen (dateText_lt h' hlt) ".csv".toList ".csv".toList
  obtain ⟨start, hstart⟩ := exists_fileName_eq kind
  rw [hstart, hstart]
  exact List.append_left_lt happend

end CsvWriter

theorem le_kLastCsvDay_iff (days : UInt64) :
    (days.toNat : Int) ≤ utcDaysFromEpoch 9999 12 31 ↔ days ≤ kLastCsvDay := by
  have hlast : utcDaysFromEpoch 9999 12 31 = (kLastCsvDay.toNat : Int) := by decide
  rw [hlast, UInt64.le_iff_toNat_le]
  omega

/-- No clamp of `TimestampToDate` is effective. -/
def NoClamp (days : UInt64) : Prop :=
  let (y, m, d) := civilFromDays days
  min y 9999 = y ∧ clamp m 1 12 = m ∧ clamp d 1 31 = d

theorem noClamp {days : UInt64} (h : days ≤ kLastCsvDay) : NoClamp days := by
  obtain ⟨hyear, hmonth, hday⟩ := civilFromDays_toNat h
  obtain ⟨hm1, hm12, hd1, hd31⟩ := ofDays_bounds (days.toNat + 719468)
  have hy : (civilFromDays days).1.toNat ≤ 9999 := hyear ▸ utcDate_year_le h
  rw [← hmonth] at hm1 hm12
  rw [← hday] at hd1 hd31
  exact ⟨if_pos (UInt64.le_iff_toNat_le.mpr hy), clamp_of_mem hm1 hm12, clamp_of_mem hd1 hd31⟩

/-- Up to 9999-12-31 a timestamp gets the date of its day: a date of the calendar, printed as it is
computed, whose `UtcDaysFromEpoch` is the number of the day. Dates are equal just when the days are,
and the names of later days come later. -/
theorem timestampToDate_utcDays (t t' : UInt64)
    (h : ((t / kUsecsPerDay).toNat : Int) ≤ utcDaysFromEpoch 9999 12 31)
    (h' : ((t' / kUsecsPerDay).toNat : Int) ≤ utcDaysFromEpoch 9999 12 31) :
    (∃ date : Date, date.Valid ∧ NoClamp (t / kUsecsPerDay) ∧
      timestampToDate t = dateChars date ∧
      utcDaysFromEpoch date.year date.month date.day = (t / kUsecsPerDay).toNat) ∧
    (timestampToDate t = timestampToDate t' ↔ t / kUsecsPerDay = t' / kUsecsPerDay) ∧
    (t / kUsecsPerDay < t' / kUsecsPerDay → timestampToDate t < timestampToDate t' ∧
      ∀ kind, CsvWriter.fileName kind (timestampToDate t) <
        CsvWriter.fileName kind (timestampToDate t')) := by
  rw [le_kLastCsvDay_iff] at h h'
  refine ⟨⟨utcDate (t / kUsecsPerDay), utcDate_valid _, noClamp h, dateText_eq_dateChars h,
    utcDaysFromEpoch_utcDate _⟩, ⟨dateText_inj h h', fun heq => ?_⟩,
    fun hlt => ⟨?_, fun kind => ?_⟩⟩
  · rw [timestampToDate, timestampToDate, heq]
  · exact dateText_lt h' hlt
  · exact CsvWriter.fileName_lt h' hlt kind

/-- The last second of February 2024 and the first one of March. -/
theorem leapDay_before_march :
    timestampToDate 1709251199000000 = "2024-02-29".toList ∧
    timestampToDate 1709251199000000 < timestampToDate 1709251200000000 := by
  have hlt := (timestampToDate_utcDays 1709251199000000 1709251200000000 (by decide)
    (by decide)).2.2 (by decide)
  exact ⟨by decide, hlt.1⟩

end Sqc
