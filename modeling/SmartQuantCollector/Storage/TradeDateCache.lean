import SmartQuantCollector.Lib.Machine
import SmartQuantCollector.Storage.UtcDays

/-! # The cached date limit of `IsValidTradeDate` (`src/storage/timestamp_util.h`)

The limit depends on the year only and is kept in `cached_max_date`, with the day it was computed on
in `cached_on_day`. The two are separate atomics. Any number of threads call `IsValidTradeDate`; a
step of a thread is one load or store, and a call reads the clock at its start, so a call that began
before midnight may store after one that began later.

When calls of two years refresh the cache at the same time, the limit of the old year may be left
with a day of the new one (`interleaved_leaves_old_limit`). As long as this does not happen the
cache agrees with the formula whenever no call is in progress (`agrees_of_sameYear`). -/

namespace Sqc
open Concurrency Gregorian

/-- The year of a day since 1970-01-01, as `gmtime_r` finds it. -/
def yearOfDay (day : Nat) : Nat := (ofDays (day + kEpochDay)).year

/-- `max_valid_date` as it is computed on a day. -/
def maxValidDate (day : Nat) : Int :=
  utcDaysFromEpoch (yearOfDay day + kPartitionYearForward) 1 1 - 1

/-- The day of a time in seconds. -/
def dayOf (now : Nat) : Nat := now / 86400

namespace TradeDateCache

/-- Where a thread stands in `IsValidTradeDate`: outside, or before the named access, with the time
that it has read and its argument. -/
inductive Thread where
  | idle
  | loadDay (now : Nat) (tradeDate : Int)
  | storeMax (now : Nat) (tradeDate : Int)
  | storeDay (now : Nat) (tradeDate : Int)
  | loadMax (now : Nat) (tradeDate : Int)
deriving DecidableEq

/-- The time of a call that refreshes the cache. -/
def Thread.refreshing : Thread → Option Nat
  | .storeMax now _ | .storeDay now _ => some now
  | _ => none

/-- A call that has returned. -/
structure Result where
  now : Nat
  tradeDate : Int
  valid : Bool
deriving DecidableEq

structure State (ι : Type) where
  cachedMaxDate : Int := 0
  cachedOnDay : Int := -1
  /-- The wall clock. -/
  now : Nat := 0
  threads : ι → Thread := fun _ => .idle
  results : List Result := []

inductive Action (ι : Type) where
  /-- The clock goes on. -/
  | tick (now : Nat)
  | call (i : ι) (tradeDate : Int)
  | advance (i : ι)

variable {ι : Type} [DecidableEq ι] {s t : State ι}

def State.setThread (s : State ι) (i : ι) (p : Thread) : State ι :=
  { s with threads := Function.update s.threads i p }

def State.finish (s : State ι) (i : ι) (r : Result) : State ι :=
  { s.setThread i .idle with results := s.results ++ [r] }

def call (s : State ι) (i : ι) (tradeDate : Int) : Option (State ι) :=
  match s.threads i with
  | .idle =>
    if tradeDate < 0 then some (s.finish i ⟨s.now, tradeDate, false⟩)
    else some (s.setThread i (.loadDay s.now tradeDate))
  | _ => none

def advance (s : State ι) (i : ι) : Option (State ι) :=
  match s.threads i with
  | .idle => none
  | .loadDay now tradeDate =>
    if s.cachedOnDay ≠ dayOf now then some (s.setThread i (.storeMax now tradeDate))
    else some (s.setThread i (.loadMax now tradeDate))
  | .storeMax now tradeDate =>
    some ({ s with cachedMaxDate := maxValidDate (dayOf now) }.setThread i
      (.storeDay now tradeDate))
  | .storeDay now tradeDate =>
    some ({ s with cachedOnDay := dayOf now }.setThread i (.loadMax now tradeDate))
  | .loadMax now tradeDate =>
    some (s.finish i
      ⟨now, tradeDate, tradeDate ≥ kMinValidDate && tradeDate ≤ s.cachedMaxDate⟩)

def step (s : State ι) : Action ι → Option (State ι)
  | .tick now => if s.now ≤ now then some { s with now := now } else none
  | .call i tradeDate => call s i tradeDate
  | .advance i => advance s i

def machine (ι : Type) [DecidableEq ι] : Machine (State ι) (Action ι) where
  init := {}
  step := step

/-- What a step does. -/
inductive Effect (s : State ι) : Action ι → State ι → Prop where
  | tick {now} (le : s.now ≤ now) : Effect s (.tick now) { s with now := now }
  | refuses {i tradeDate} (thread : s.threads i = .idle) (neg : tradeDate < 0) :
      Effect s (.call i tradeDate) (s.finish i ⟨s.now, tradeDate, false⟩)
  | calls {i tradeDate} (thread : s.threads i = .idle) (nonneg : ¬ tradeDate < 0) :
      Effect s (.call i tradeDate) (s.setThread i (.loadDay s.now tradeDate))
  | misses {i now tradeDate} (thread : s.threads i = .loadDay now tradeDate)
      (day : s.cachedOnDay ≠ dayOf now) :
      Effect s (.advance i) (s.setThread i (.storeMax now tradeDate))
  | hits {i now tradeDate} (thread : s.threads i = .loadDay now tradeDate)
      (day : s.cachedOnDay = dayOf now) :
      Effect s (.advance i) (s.setThread i (.loadMax now tradeDate))
  | storesMax {i now tradeDate} (thread : s.threads i = .storeMax now tradeDate) :
      Effect s (.advance i)
        ({ s with cachedMaxDate := maxValidDate (dayOf now) }.setThread i
          (.storeDay now tradeDate))
  | storesDay {i now tradeDate} (thread : s.threads i = .storeDay now tradeDate) :
      Effect s (.advance i)
        ({ s with cachedOnDay := dayOf now }.setThread i (.loadMax now tradeDate))
  | returns {i now tradeDate} (thread : s.threads i = .loadMax now tradeDate) :
      Effect s (.advance i) (s.finish i
        ⟨now, tradeDate, tradeDate ≥ kMinValidDate && tradeDate ≤ s.cachedMaxDate⟩)

theorem effect_of_step {a : Action ι} (h : step s a = some t) : Effect s a t := by
  cases a with
  | tick now =>
    simp only [step] at h
    split at h
    next hle => cases h; exact .tick hle
    next => cases h
  | call i tradeDate =>
    simp only [step, call] at h
    split at h
    next hidle =>
      split at h
      next hneg => cases h; exact .refuses hidle hneg
      next hneg => cases h; exact .calls hidle hneg
    next => cases h
  | advance i =>
    simp only [step, advance] at h
    split at h
    next => cases h
    next hthread =>
      split at h
      next hday => cases h; exact .misses hthread hday
      next hday => cases h; exact .hits hthread (not_not.mp hday)
    next hthread => cases h; exact .storesMax hthread
    next hthread => cases h; exact .storesDay hthread
    next hthread => cases h; exact .returns hthread

/-! ## Calls of one year -/

/-- A call that is about to refresh the cache is in the year of all calls that do. -/
def SameYear (s : State ι) : Action ι → Prop
  | .advance i => ∀ now tradeDate, s.threads i = .loadDay now tradeDate →
      s.cachedOnDay ≠ dayOf now → ∀ j now', (s.threads j).refreshing = some now' →
        yearOfDay (dayOf now') = yearOfDay (dayOf now)
  | _ => True

/-- The cache holds the limit of its day. -/
def Agrees (s : State ι) : Prop :=
  ∀ d : Nat, s.cachedOnDay = d → s.cachedMaxDate = maxValidDate d

structure Inv (s : State ι) : Prop where
  year : ∀ {i j now now'}, (s.threads i).refreshing = some now →
    (s.threads j).refreshing = some now' → yearOfDay (dayOf now) = yearOfDay (dayOf now')
  stored : ∀ {i now tradeDate}, s.threads i = .storeDay now tradeDate →
    s.cachedMaxDate = maxValidDate (dayOf now)
  agrees : (∃ i now tradeDate, s.threads i = .storeDay now tradeDate) ∨ Agrees s

theorem maxValidDate_congr {d e : Nat} (h : yearOfDay d = yearOfDay e) :
    maxValidDate d = maxValidDate e := by
  rw [maxValidDate, h, maxValidDate]

@[simp] theorem setThread_threads (s : State ι) (i j : ι) (p : Thread) :
    (s.setThread i p).threads j = if j = i then p else s.threads j :=
  Function.update_apply ..

namespace Inv

omit [DecidableEq ι] in
theorem init : Inv ({} : State ι) where
  year h := by cases h
  stored h := by cases h
  agrees := .inr fun _ h => by cases h

/-- A thread that does not refresh the cache behind the step changes no year. -/
theorem year_setThread (h : Inv s) {i j k : ι} {p : Thread} {now now' : Nat}
    (hafter : p.refreshing = none) (hj : ((s.setThread i p).threads j).refreshing = some now)
    (hk : ((s.setThread i p).threads k).refreshing = some now') :
    yearOfDay (dayOf now) = yearOfDay (dayOf now') := by
  rw [setThread_threads] at hj hk
  split at hj
  · rw [hafter] at hj
    cases hj
  · split at hk
    · rw [hafter] at hk
      cases hk
    · exact h.year hj hk

/-- The threads that have stored their limit, other than the one that moves. -/
theorem stored_setThread (h : Inv s) {i j : ι} {p : Thread} {now : Nat} {tradeDate : Int}
    (hafter : ∀ now tradeDate, p ≠ .storeDay now tradeDate)
    (hj : (s.setThread i p).threads j = .storeDay now tradeDate) :
    s.cachedMaxDate = maxValidDate (dayOf now) := by
  rw [setThread_threads] at hj
  split at hj
  · exact absurd hj (hafter now tradeDate)
  · exact h.stored hj

theorem agrees_setThread (h : Inv s) {i : ι} (p : Thread)
    (hbefore : ∀ now tradeDate, s.threads i ≠ .storeDay now tradeDate) :
    (∃ j now tradeDate, (s.setThread i p).threads j = .storeDay now tradeDate) ∨ Agrees s := by
  rcases h.agrees with ⟨j, now, tradeDate, hj⟩ | hagrees
  · have hne : j ≠ i := fun heq => hbefore now tradeDate (heq ▸ hj)
    exact .inl ⟨j, now, tradeDate, by rw [setThread_threads, if_neg hne, hj]⟩
  · exact .inr hagrees

/-- A thread that neither refreshes the cache behind the step nor has stored its limit before. -/
theorem setThread (h : Inv s) {i : ι} {p : Thread}
    (hbefore : ∀ now tradeDate, s.threads i ≠ .storeDay now tradeDate)
    (hafter : p.refreshing = none) : Inv (s.setThread i p) where
  year := h.year_setThread hafter
  stored := h.stored_setThread fun now tradeDate heq => by
    rw [heq] at hafter
    cases hafter
  agrees := h.agrees_setThread p hbefore

theorem finish (h : Inv s) {i : ι} (r : Result)
    (hbefore : ∀ now tradeDate, s.threads i ≠ .storeDay now tradeDate) : Inv (s.finish i r) :=
  have h := h.setThread hbefore (p := .idle) rfl
  ⟨h.year, h.stored, h.agrees⟩

theorem misses (h : Inv s) {i : ι} {now : Nat} {tradeDate : Int}
    (hi : s.threads i = .loadDay now tradeDate) (hyear : ∀ j now',
      (s.threads j).refreshing = some now' → yearOfDay (dayOf now') = yearOfDay (dayOf now)) :
    Inv (s.setThread i (.storeMax now tradeDate)) where
  year {j k u v} hj hk := by
    rw [setThread_threads] at hj hk
    split at hj
    · cases hj
      split at hk
      · cases hk
        rfl
      · exact (hyear k v hk).symm
    · split at hk
      · cases hk
        exact hyear j u hj
      · exact h.year hj hk
  stored := h.stored_setThread fun _ _ heq => by cases heq
  agrees := h.agrees_setThread _ fun _ _ heq => by cases hi.symm.trans heq

theorem storesMax (h : Inv s) {i : ι} {now : Nat} {tradeDate : Int}
    (hi : s.threads i = .storeMax now tradeDate) :
    Inv ({ s with cachedMaxDate := maxValidDate (dayOf now) }.setThread i
      (.storeDay now tradeDate)) where
  year {j k u v} hj hk := by
    -- the thread refreshes before and behind the step, in the same year
    have hsame {j u} (hj : (({ s with cachedMaxDate := maxValidDate (dayOf now) }.setThread i
        (.storeDay now tradeDate)).threads j).refreshing = some u) :
        (s.threads j).refreshing = some u := by
      rw [setThread_threads] at hj
      split at hj
      next heq =>
        rw [heq, hi]
        exact hj
      next => exact hj
    exact h.year (hsame hj) (hsame hk)
  stored {j u d} hj := by
    rw [setThread_threads] at hj
    split at hj
    · cases hj
      rfl
    · have hj' : (s.threads j).refreshing = some u := by
        show Thread.refreshing _ = _
        rw [show s.threads j = _ from hj]
        rfl
      have hi' : (s.threads i).refreshing = some now := by rw [hi]; rfl
      exact maxValidDate_congr (h.year hi' hj')
  agrees := .inl ⟨i, now, tradeDate, by rw [setThread_threads, if_pos rfl]⟩

theorem storesDay (h : Inv s) {i : ι} {now : Nat} {tradeDate : Int}
    (hi : s.threads i = .storeDay now tradeDate) :
    Inv ({ s with cachedOnDay := dayOf now }.setThread i (.loadMax now tradeDate)) where
  year hj hk := h.year_setThread (p := .loadMax now tradeDate) rfl hj hk
  stored hj := h.stored_setThread (p := .loadMax now tradeDate) (fun _ _ heq => by cases heq) hj
  agrees := .inr fun d hd => by
    have hday : dayOf now = d := Int.ofNat.inj hd
    rw [← hday]
    exact h.stored hi

theorem step {a : Action ι} (h : Inv s) (hC : SameYear s a)
    (hs : TradeDateCache.step s a = some t) : Inv t := by
  cases effect_of_step hs with
  | tick => exact ⟨h.year, h.stored, h.agrees⟩
  | refuses hi => exact h.finish _ (by simp [hi])
  | calls hi => exact h.setThread (by simp [hi]) rfl
  | misses hi hday => exact h.misses hi (hC _ _ hi hday)
  | hits hi => exact h.setThread (by simp [hi]) rfl
  | storesMax hi => exact h.storesMax hi
  | storesDay hi => exact h.storesDay hi
  | returns hi => exact h.finish _ (by simp [hi])

omit [DecidableEq ι] in
/-- Between calls the cache holds the limit of its day. -/
theorem agrees_of_idle (h : Inv s) (hidle : ∀ i, s.threads i = .idle) : Agrees s := by
  rcases h.agrees with ⟨i, now, tradeDate, hi⟩ | hagrees
  · cases (hidle i).symm.trans hi
  · exact hagrees

end Inv

/-! ## Calls of one day -/

/-- The call of a thread is of day `d` and has no need to refresh the cache. -/
def Thread.OfDay (d : Nat) : Thread → Prop
  | .idle => True
  | .loadDay now tradeDate | .loadMax now tradeDate => dayOf now = d ∧ 0 ≤ tradeDate
  | .storeMax .. | .storeDay .. => False

/-- The cache holds the limit of day `d`, all calls in progress are of this day, and those that have
returned since `before` agree with the formula. -/
structure OnDay (d : Nat) (before : List Result) (s : State ι) : Prop where
  onDay : s.cachedOnDay = d
  maxDate : s.cachedMaxDate = maxValidDate d
  now : dayOf s.now = d
  threads : ∀ i, (s.threads i).OfDay d
  results : ∃ later, s.results = before ++ later ∧
    ∀ r ∈ later, r.valid = isValidTradeDate (maxValidDate d) r.tradeDate

/-- The clock stays on day `d`. -/
def Action.StaysOn (d : Nat) : Action ι → Prop
  | .tick now => dayOf now = d
  | _ => True

namespace OnDay

variable {d : Nat} {before : List Result}

theorem setThread (h : OnDay d before s) (i : ι) {p : Thread} (hp : p.OfDay d) :
    OnDay d before (s.setThread i p) where
  onDay := h.onDay
  maxDate := h.maxDate
  now := h.now
  threads j := by
    rw [setThread_threads]
    split
    · exact hp
    · exact h.threads j
  results := h.results

theorem finish (h : OnDay d before s) (i : ι) {r : Result}
    (hr : r.valid = isValidTradeDate (maxValidDate d) r.tradeDate) :
    OnDay d before (s.finish i r) where
  onDay := h.onDay
  maxDate := h.maxDate
  now := h.now
  threads := (h.setThread i (p := .idle) trivial).threads
  results := by
    obtain ⟨later, hlater, hvalid⟩ := h.results
    refine ⟨later ++ [r], ?_, List.forall_mem_append.mpr
      ⟨hvalid, List.forall_mem_singleton.mpr hr⟩⟩
    show s.results ++ [r] = _
    rw [hlater, List.append_assoc]

theorem step {a : Action ι} (h : OnDay d before s) (ha : a.StaysOn d)
    (hs : TradeDateCache.step s a = some t) : OnDay d before t := by
  have hthread {i : ι} {p : Thread} (hp : s.threads i = p) : p.OfDay d := hp ▸ h.threads i
  cases effect_of_step hs with
  | tick => exact ⟨h.onDay, h.maxDate, ha, h.threads, h.results⟩
  | refuses _ hneg =>
    refine h.finish _ ?_
    simp [isValidTradeDate, Int.not_le.mpr hneg]
  | calls _ hnonneg => exact h.setThread _ ⟨h.now, Int.not_lt.mp hnonneg⟩
  | misses hi hday =>
    obtain ⟨hnow, -⟩ := hthread hi
    exact absurd (h.onDay.trans (congrArg _ hnow.symm)) hday
  | hits hi =>
    have hof := hthread hi
    exact h.setThread _ hof
  | storesMax hi | storesDay hi => exact (hthread hi).elim
  | returns hi =>
    obtain ⟨-, hnonneg⟩ := hthread hi
    refine h.finish _ ?_
    simp [isValidTradeDate, h.maxDate, hnonneg]

end OnDay

/-! ## A call alone -/

/-- The two atomics. -/
structure Cache where
  maxDate : Int := 0
  onDay : Int := -1

/-- The cache behind a call that no other call overlaps. -/
def Cache.refresh (c : Cache) (now : Nat) : Cache :=
  if c.onDay ≠ dayOf now then ⟨maxValidDate (dayOf now), dayOf now⟩ else c

/-- What such a call returns. -/
def Cache.accepts (c : Cache) (now : Nat) (tradeDate : Int) : Bool :=
  isValidTradeDate (c.refresh now).maxDate tradeDate

omit [DecidableEq ι] in
def State.cache (s : State ι) : Cache := ⟨s.cachedMaxDate, s.cachedOnDay⟩

/-- The run of a call that the other threads do not interrupt. -/
theorem exec_call {i : ι} (hi : s.threads i = .idle) {tradeDate : Int} (h : 0 ≤ tradeDate) :
    ∃ m u, (machine ι).exec s (.call i tradeDate :: List.replicate m (.advance i)) = some u ∧
      u.cache = s.cache.refresh s.now ∧
      u.results = s.results ++ [⟨s.now, tradeDate, s.cache.accepts s.now tradeDate⟩] := by
  have hcall : call s i tradeDate = some (s.setThread i (.loadDay s.now tradeDate)) := by
    simp only [call, hi, if_neg (Int.not_lt.mpr h)]
  rcases eq_or_ne s.cachedOnDay (dayOf s.now) with hday | hday
  · refine ⟨2, ?_⟩
    simp [Machine.exec_cons, machine, hcall, step, advance, State.setThread, State.finish, hday,
      State.cache, Cache.refresh, Cache.accepts, isValidTradeDate, h]
  · refine ⟨4, ?_⟩
    simp [Machine.exec_cons, machine, hcall, step, advance, State.setThread, State.finish, hday,
      State.cache, Cache.refresh, Cache.accepts, isValidTradeDate, h]

/-! ## Whole runs -/

/-- In every run in which calls that refresh the cache at the same time are of the same year: when
no call is in progress the cache holds the limit of its day, and what later calls of this day return
is what the formula says. -/
theorem agrees_of_sameYear (as : List (Action ι)) (t : State ι)
    (hrun : (machine ι).exec (machine ι).init as = some t)
    (hC : (machine ι).Along SameYear (machine ι).init as) (hidle : ∀ i, t.threads i = .idle)
    (d : Nat) (hd : t.cachedOnDay = d) :
    t.cachedMaxDate = maxValidDate d ∧
    (dayOf t.now = d → ∀ bs u, (machine ι).exec t bs = some u → (∀ a ∈ bs, a.StaysOn d) →
      ∃ later, u.results = t.results ++ later ∧
        ∀ r ∈ later, r.valid = isValidTradeDate (maxValidDate d) r.tradeDate) := by
  have hstep : ∀ (s : State ι) (a : Action ι) (t : State ι), Inv s → SameYear s a →
      (machine ι).step s a = some t → Inv t := fun _ _ _ h hC hs => h.step hC hs
  have hinv : Inv t := (machine ι).exec_invariant hstep .init hC hrun
  have hmax := hinv.agrees_of_idle hidle d hd
  refine ⟨hmax, fun hnow bs u hu hday => ?_⟩
  have hstep' : ∀ (s : State ι) (a : Action ι) (u : State ι), OnDay d t.results s →
      a.StaysOn d → (machine ι).step s a = some u → OnDay d t.results u :=
    fun _ _ _ h ha hs => h.step ha hs
  have hstart : OnDay d t.results t := by
    refine ⟨hd, hmax, hnow, fun i => ?_, [], (List.append_nil _).symm, List.forall_mem_nil _⟩
    rw [hidle i]
    trivial
  exact ((machine ι).exec_invariant hstep' hstart ((machine ι).along_of_forall hday) hu).results

omit [DecidableEq ι] in
/-- Calls of one thread do not overlap. -/
theorem sameYear_of_subsingleton [Subsingleton ι] (s : State ι) (a : Action ι) : SameYear s a := by
  cases a with
  | tick | call => trivial
  | advance i =>
    intro now tradeDate hi _ j now' hj
    rw [Subsingleton.elim j i, hi] at hj
    cases hj

/-- Calls of one thread in the last second of 2026 and in the first of 2027. -/
def overNewYear : List (Action Unit) :=
  [.tick 1798761599, .call () 20000, .advance (), .advance (), .advance (), .advance (),
    .tick 1798761600, .call () 20000, .advance (), .advance (), .advance (), .advance ()]

theorem overNewYear_agrees :
    ∃ t, (machine Unit).exec (machine Unit).init overNewYear = some t ∧
      t.cachedOnDay = (20819 : Nat) ∧ t.cachedMaxDate = maxValidDate 20819 := by
  have hrun : ((machine Unit).exec (machine Unit).init overNewYear).map (fun t =>
      (t.threads (), t.cachedOnDay)) = some (.idle, 20819) := by decide +kernel
  obtain ⟨t, ht, hfields⟩ := Option.map_eq_some_iff.mp hrun
  obtain ⟨hidle, hday⟩ := Prod.mk.inj hfields
  have hC : (machine Unit).Along SameYear (machine Unit).init overNewYear :=
    (machine Unit).along_mono (fun s a _ => sameYear_of_subsingleton s a)
      (machine Unit).along_true
  exact ⟨t, ht, hday, (agrees_of_sameYear overNewYear t ht hC (fun _ => hidle) 20819 hday).1⟩

/-- The calls on two threads, with the stores of the first one between those of the second one. -/
def interleaved : List (Action Bool) :=
  [.tick 1798761599, .call false 20000, .advance false, .tick 1798761600, .call true 20000,
    .advance true, .advance true, .advance false, .advance false, .advance true, .advance false,
    .advance true]

/-- The limit of 2026 stays in the cache with a day of 2027, and the next call refuses a date that
the formula accepts. -/
theorem interleaved_leaves_old_limit :
    ∃ t, (machine Bool).exec (machine Bool).init interleaved = some t ∧
      (∀ i, t.threads i = .idle) ∧ t.cachedOnDay = 20819 ∧
      t.cachedMaxDate ≠ maxValidDate 20819 ∧
      isValidTradeDate (maxValidDate 20819) 22644 = true ∧
      ∃ u, (machine Bool).exec t [.call true 22644, .advance true, .advance true] = some u ∧
        u.results = t.results ++ [⟨1798761600, 22644, false⟩] := by
  have hrun : ((machine Bool).exec (machine Bool).init interleaved).map (fun t =>
      (t.threads false, t.threads true, t.cachedOnDay, t.cachedMaxDate, t.results)) =
      some (.idle, .idle, 20819, 22279,
        [⟨1798761599, 20000, true⟩, ⟨1798761600, 20000, true⟩]) := by
    decide +kernel
  obtain ⟨t, ht, hfields⟩ := Option.map_eq_some_iff.mp hrun
  simp only [Prod.mk.injEq] at hfields
  obtain ⟨hfalse, htrue, hday, hmax, hresults⟩ := hfields
  have hlimit : maxValidDate 20819 = 22644 := by decide +kernel
  refine ⟨t, ht, Bool.forall_bool.mpr ⟨hfalse, htrue⟩, hday, ?_, ?_, ?_⟩
  · rw [hmax, hlimit]
    decide
  · rw [hlimit]
    decide
  · have hnext : ((machine Bool).exec (machine Bool).init
        (interleaved ++ [.call true 22644, .advance true, .advance true])).map (·.results) =
        some ([⟨1798761599, 20000, true⟩, ⟨1798761600, 20000, true⟩] ++
          [⟨1798761600, 22644, false⟩]) := by
      decide +kernel
    rw [Machine.exec_append, ht, Option.bind_some] at hnext
    obtain ⟨u, hu, hlog⟩ := Option.map_eq_some_iff.mp hnext
    exact ⟨u, hu, by rw [hlog, hresults]⟩

end TradeDateCache

end Sqc
