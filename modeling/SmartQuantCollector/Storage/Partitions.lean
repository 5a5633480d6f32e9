import SmartQuantCollector.Storage.Client.DolphinDBSchema
import SmartQuantCollector.Storage.TradeDateCache

/-! # Accepted dates and partitions

`InitSchema` makes RANGE partitions from the start of last year to a boundary in the fifth year
ahead. `IsValidTradeDate` refuses the dates from the first of January of that year on, so that every
accepted date lies before the last boundary; but it accepts all dates since 2000, and those before
last year have no partition. -/

namespace Sqc
open Gregorian

namespace DolphinDBSchema

/-- The year of `localtime_r`, with the offset of the time zone in seconds. -/
def localYear (now : Nat) (offset : Int) : Nat := yearOfDay ((now + offset) / 86400).toNat

/-- The boundaries with which `InitSchema` creates the database. -/
def initialDates (curYear : Int) (granularity : String) : List RangeDate :=
  rangeDates (curYear - kPartitionYearBack) (curYear + kPartitionYearForward) granularity

/-- A day at or behind the first boundary and before the last one. -/
def InDomain (boundaries : List RangeDate) (day : Int) : Prop :=
  ∃ first last, boundaries.head? = some first ∧ boundaries.getLast? = some last ∧
    first.utcDays ≤ day ∧ day < last.utcDays

/-! ## The first and the last boundary -/

theorem years_cons {startYear endYear : Int} (h : startYear ≤ endYear) :
    years startYear endYear = startYear :: years (startYear + 1) endYear := by
  obtain ⟨n, hn⟩ := Int.eq_ofNat_of_zero_le (by omega : 0 ≤ endYear - startYear)
  have hlen : (endYear + 1 - startYear).toNat = n + 1 := by omega
  have hlen' : (endYear + 1 - (startYear + 1)).toNat = n := by omega
  rw [years, years, hlen, hlen', List.range_succ_eq_map, List.map_cons, List.map_map]
  refine congrArg₂ _ (Int.add_zero _) (List.map_congr_left fun i _ => ?_)
  show startYear + ((i + 1 : Nat) : Int) = startYear + 1 + i
  omega

theorem years_concat {startYear endYear : Int} (h : startYear ≤ endYear) :
    years startYear endYear = years startYear (endYear - 1) ++ [endYear] := by
  obtain ⟨n, hn⟩ := Int.eq_ofNat_of_zero_le (by omega : 0 ≤ endYear - startYear)
  have hlen : (endYear + 1 - startYear).toNat = n + 1 := by omega
  have hlen' : (endYear - 1 + 1 - startYear).toNat = n := by omega
  have hlast : startYear + (n : Int) = endYear := by omega
  rw [years, years, hlen, hlen', List.range_succ, List.map_append, List.map_singleton, hlast]

theorem head?_rangeDates {startYear endYear : Int} (h : startYear ≤ endYear)
    (granularity : String) :
    (rangeDates startYear endYear granularity).head? = some ⟨startYear, 1, 1⟩ := by
  rw [rangeDates, years_cons h]
  split
  · rfl
  · split
    · rfl
    · rfl

theorem getLast?_rangeDates {startYear endYear : Int} (h : startYear ≤ endYear)
    (granularity : String) :
    ∃ last, (rangeDates startYear endYear granularity).getLast? = some last ∧
      last.year = endYear ∧ 1 ≤ last.day := by
  rw [rangeDates, years_concat h]
  split
  · refine ⟨⟨endYear, 12, 31⟩, ?_, rfl, by simp⟩
    rw [List.flatMap_append, List.flatMap_singleton, (List.range'_concat : List.range' 1 12 = _),
      List.flatMap_append, List.getLast?_append, List.getLast?_append]
    rfl
  · split
    · refine ⟨⟨endYear, 12, 1⟩, ?_, rfl, by simp⟩
      rw [List.flatMap_append, List.getLast?_append]
      rfl
    · refine ⟨⟨endYear, 1, 1⟩, ?_, rfl, by simp⟩
      rw [List.map_append, List.getLast?_append]
      rfl

/-! ## The dates of a year -/

theorem le_yearOfDay_iff {year : Nat} (h : 1 ≤ year) (day : Nat) :
    year ≤ yearOfDay day ↔ utcDaysFromEpoch year 1 1 ≤ day := by
  rw [yearOfDay, le_year_iff (Nat.le_add_left_of_le (by decide)) h, utcDays_newYear h]
  omega

theorem le_yearOfDay (day : Nat) : 1970 ≤ yearOfDay day := by
  rw [le_yearOfDay_iff (by decide)]
  have hepoch : utcDaysFromEpoch 1970 1 1 = 0 := by decide
  exact hepoch ▸ Int.natCast_nonneg day

theorem kMonthDays_nonneg (k : Nat) : 0 ≤ kMonthDays.getD k 0 := by
  have hall : ∀ x ∈ kMonthDays, 0 ≤ x := by decide
  rw [List.getD_eq_getElem?_getD]
  cases hk : kMonthDays[k]? with
  | none => exact Int.le_refl 0
  | some x => exact hall x (List.mem_of_getElem? hk)

/-- A boundary is not before the first day of its year. -/
theorem newYear_le_utcDays {b : RangeDate} (hday : 1 ≤ b.day) :
    utcDaysFromEpoch b.year 1 1 ≤ b.utcDays := by
  have hmonth := kMonthDays_nonneg ((b.month : Int) - 1).toNat
  have hjan : kMonthDays.getD ((1 : Int) - 1).toNat 0 = 0 := rfl
  simp only [RangeDate.utcDays, utcDaysFromEpoch, hjan]
  rw [if_neg (by omega)]
  split <;> omega

/-! ## The accepted dates -/

open TradeDateCache

/-- The cache holds the limit of its day. -/
def Coherent (c : Cache) : Prop := ∀ d : Nat, c.onDay = d → c.maxDate = maxValidDate d

theorem Coherent.maxDate_refresh {c : Cache} (h : Coherent c) (now : Nat) :
    (c.refresh now).maxDate = maxValidDate (dayOf now) := by
  unfold Cache.refresh
  split
  · rfl
  next hday => exact h _ (not_not.mp hday)

theorem Coherent.refresh {c : Cache} (h : Coherent c) (now : Nat) : Coherent (c.refresh now) := by
  intro d hd
  rw [h.maxDate_refresh]
  unfold Cache.refresh at hd
  split at hd
  · rw [Int.ofNat.inj hd]
  next hday => rw [Int.ofNat.inj ((not_not.mp hday).symm.trans hd)]

/-- One call after the other leaves a coherent cache. -/
theorem Coherent.foldl {c : Cache} (h : Coherent c) (earlier : List Nat) :
    Coherent (earlier.foldl Cache.refresh c) := by
  induction earlier generalizing c with
  | nil => exact h
  | cons now earlier ih => exact ih (h.refresh now)

theorem Coherent.empty : Coherent {} := fun _ h => by cases h

theorem accepts_iff (earlier : List Nat) (now : Nat) (tradeDate : Int) :
    (earlier.foldl Cache.refresh {}).accepts now tradeDate = true ↔
      kMinValidDate ≤ tradeDate ∧
        tradeDate < utcDaysFromEpoch (yearOfDay (dayOf now) + kPartitionYearForward) 1 1 := by
  have hmin : 0 ≤ kMinValidDate := by decide
  rw [Cache.accepts, (Coherent.empty.foldl earlier).maxDate_refresh, maxValidDate]
  simp only [isValidTradeDate, Bool.and_eq_true, decide_eq_true_eq]
  omega

/-- The domain of a granularity reaches over all accepted dates. -/
theorem inDomain_iff {curYear : Nat} (granularity : String) {tradeDate : Int}
    (hlt : tradeDate < utcDaysFromEpoch (curYear + kPartitionYearForward) 1 1) :
    InDomain (initialDates curYear granularity) tradeDate ↔
      utcDaysFromEpoch (curYear - kPartitionYearBack) 1 1 ≤ tradeDate := by
  have hle : (curYear : Int) - kPartitionYearBack ≤ curYear + kPartitionYearForward := by
    simp only [kPartitionYearBack, kPartitionYearForward]
    omega
  have hhead := head?_rangeDates hle granularity
  obtain ⟨last, hlast, hyear, hday⟩ := getLast?_rangeDates hle granularity
  constructor
  · rintro ⟨first, -, hfirst, -, hge, -⟩
    cases hhead.symm.trans hfirst
    exact hge
  · intro hge
    refine ⟨_, last, hhead, hlast, hge, Int.lt_of_lt_of_le hlt ?_⟩
    rw [← hyear]
    exact newYear_le_utcDays hday

/-- The days of the years from last year on. -/
theorem lastYear_le_iff (today : Nat) {tradeDate : Int} (h : 0 ≤ tradeDate) :
    utcDaysFromEpoch (yearOfDay today - kPartitionYearBack) 1 1 ≤ tradeDate ↔
      yearOfDay today ≤ yearOfDay tradeDate.toNat + 1 := by
  have hyear := le_yearOfDay today
  have hcast : (yearOfDay today : Int) - kPartitionYearBack =
      ((yearOfDay today - 1 : Nat) : Int) := by
    simp only [kPartitionYearBack]
    omega
  rw [hcast, ← Int.toNat_of_nonneg h, ← le_yearOfDay_iff (by omega), Int.toNat_natCast]
  omega

/-- An accepted date has a partition exactly when it is not before last year, and all accepted dates
have one exactly up to the year 2001. -/
theorem accepted_inDomain_iff (earlier : List Nat) (now : Nat) (offset : Int)
    (granularity : String) (hyear : localYear now offset = yearOfDay (dayOf now)) :
    (∀ tradeDate, (earlier.foldl Cache.refresh {}).accepts now tradeDate = true →
      (InDomain (initialDates (localYear now offset) granularity) tradeDate ↔
        yearOfDay (dayOf now) ≤ yearOfDay tradeDate.toNat + 1)) ∧
    ((∀ tradeDate, (earlier.foldl Cache.refresh {}).accepts now tradeDate = true →
      InDomain (initialDates (localYear now offset) granularity) tradeDate) ↔
        yearOfDay (dayOf now) ≤ 2001) := by
  have hcur := le_yearOfDay (dayOf now)
  have hmin : 0 ≤ kMinValidDate := by decide
  have hdomain (tradeDate : Int)
      (h : (earlier.foldl Cache.refresh {}).accepts now tradeDate = true) :
      InDomain (initialDates (localYear now offset) granularity) tradeDate ↔
        yearOfDay (dayOf now) ≤ yearOfDay tradeDate.toNat + 1 := by
    obtain ⟨hge, hlt⟩ := (accepts_iff ..).mp h
    rw [hyear, inDomain_iff granularity hlt, lastYear_le_iff _ (by omega)]
  refine ⟨hdomain, fun hall => ?_, fun hle tradeDate h => ?_⟩
  · -- the first accepted date is in the year 2000
    apply Nat.le_of_not_lt
    intro hlt
    have hfirst : yearOfDay kMinValidDate.toNat = 2000 := by decide +kernel
    have haccepted : (earlier.foldl Cache.refresh {}).accepts now kMinValidDate = true := by
      rw [accepts_iff]
      refine ⟨Int.le_refl _, Int.not_le.mp fun hle => ?_⟩
      have hyear5 := (le_yearOfDay_iff (by omega : 1 ≤ yearOfDay (dayOf now) + 5)
        kMinValidDate.toNat).mpr hle
      omega
    have hin := (hdomain _ haccepted).mp (hall _ haccepted)
    omega
  · rw [hdomain tradeDate h]
    have hge := ((accepts_iff ..).mp h).1
    have h2000 : 2000 ≤ yearOfDay tradeDate.toNat := by
      have hday : utcDaysFromEpoch (2000 : Nat) 1 1 = kMinValidDate := by decide
      rw [le_yearOfDay_iff (by decide), hday, Int.toNat_of_nonneg (Int.le_trans hmin hge)]
      exact hge
    omega

/-- In 2026 a date of 2010 is accepted, and the first partition starts with 2025. -/
theorem old_date_without_partition :
    localYear 1790000000 0 = yearOfDay (dayOf 1790000000) ∧
    ({} : Cache).accepts 1790000000 14610 = true ∧
    (initialDates (localYear 1790000000 0) "day").head? = some ⟨2025, 1, 1⟩ ∧
    ¬ InDomain (initialDates (localYear 1790000000 0) "day") 14610 := by
  have hyear : localYear 1790000000 0 = yearOfDay (dayOf 1790000000) := by decide +kernel
  have hlocal : localYear 1790000000 0 = 2026 := by decide +kernel
  have hhead : (initialDates (localYear 1790000000 0) "day").head? = some ⟨2025, 1, 1⟩ := by
    rw [hlocal]
    exact head?_rangeDates (by decide) "day"
  refine ⟨hyear, by decide +kernel, hhead, ?_⟩
  rintro ⟨first, -, hfirst, -, hge, -⟩
  cases hhead.symm.trans hfirst
  exact absurd hge (by decide)

/-- A trade of the day itself has a partition. -/
theorem today_has_partition :
    InDomain (initialDates (localYear 1790000000 28800) "month") 20717 := by
  have hyear : localYear 1790000000 28800 = yearOfDay (dayOf 1790000000) := by decide +kernel
  refine ((accepted_inDomain_iff [] 1790000000 28800 "month" hyear).1 20717
    (by decide +kernel)).mpr ?_
  decide +kernel

end DolphinDBSchema

end Sqc
