import SmartQuantCollector.RithmicGateway.PriceMap

/-! # A full book

Levels of positive quantity on one side, more of them than the side has slots. `ApplyLevel` ignores
a new price when the side is full, so that the side holds the prices that came first
(`applyAll_lists_kept`). These are the best ones just in case every price that came later is worse
than all of them (`lists_best_iff`); a better one is lost. -/

namespace Sqc
namespace RithmicOrderBook

open CountedArray

variable {P Q : Type} [LinearOrder P]

/-- The distinct prices in the order of their arrival. -/
def arrived (levels : List (Level P Q)) : List P := (levels.map (·.price)).eraseDups

/-- The prices that came first. -/
def kept (levels : List (Level P Q)) : List P := (arrived levels).take kMaxOrderbookLevels

/-- How many prices are better. -/
def betterCount (isAsk : Bool) (levels : List (Level P Q)) (price : P) : Nat :=
  (arrived levels).countP (Before isAsk · price)

def onSide (isAsk : Bool) (levels : List (Level P Q)) : List (Bool × Level P Q) :=
  levels.map (isAsk, ·)

/-- The best prices with their last quantities. -/
def bestMap (isAsk : Bool) (levels : List (Level P Q)) (price : P) : Option Q :=
  if betterCount isAsk levels price < kMaxOrderbookLevels then
    lastQuantity (onSide isAsk levels) isAsk price
  else none

/-- The first prices with their last quantities. -/
def keptMap (isAsk : Bool) (levels : List (Level P Q)) (price : P) : Option Q :=
  if price ∈ kept levels then lastQuantity (onSide isAsk levels) isAsk price else none

/-- Every price that came when the side was full is worse than those on it. -/
def LaterWorse (isAsk : Bool) (levels : List (Level P Q)) : Prop :=
  ∀ p ∈ kept levels, ∀ p' ∈ (arrived levels).drop kMaxOrderbookLevels, Before isAsk p p'

instance (isAsk : Bool) (levels : List (Level P Q)) : Decidable (LaterWorse isAsk levels) :=
  inferInstanceAs (Decidable (∀ p ∈ kept levels,
    ∀ p' ∈ (arrived levels).drop kMaxOrderbookLevels, Before isAsk p p'))

/-! ## The prices -/

theorem arrived_concat (levels : List (Level P Q)) (l : Level P Q) :
    arrived (levels ++ [l]) =
      if l.price ∈ arrived levels then arrived levels else arrived levels ++ [l.price] := by
  rw [arrived, List.map_append, List.eraseDups_append, arrived, List.map_singleton, List.removeAll]
  by_cases h : l.price ∈ levels.map (·.price)
  · rw [if_pos (List.mem_eraseDups.mpr h), List.filter_cons_of_neg (by simpa using h)]
    exact List.append_nil _
  · rw [if_neg (mt List.mem_eraseDups.mp h), List.filter_cons_of_pos (by simpa using h)]
    rfl

theorem nodup_arrived (levels : List (Level P Q)) : (arrived levels).Nodup := by
  induction levels using List.reverseRecOn with
  | nil => exact .nil
  | append_singleton levels l ih =>
    rw [arrived_concat]
    split
    next => exact ih
    next h =>
      rw [← List.concat_eq_append]
      exact ih.concat h

theorem kept_append_drop (levels : List (Level P Q)) :
    kept levels ++ (arrived levels).drop kMaxOrderbookLevels = arrived levels :=
  List.take_append_drop ..

theorem not_mem_kept_of_mem_drop {levels : List (Level P Q)} {price : P}
    (h : price ∈ (arrived levels).drop kMaxOrderbookLevels) : price ∉ kept levels := by
  have hnodup := nodup_arrived levels
  rw [← kept_append_drop, List.nodup_append] at hnodup
  exact fun hkept => hnodup.2.2 price hkept price h rfl

theorem isSome_lastQuantity_iff (isAsk : Bool) (levels : List (Level P Q)) (price : P) :
    (lastQuantity (onSide isAsk levels) isAsk price).isSome = true ↔ price ∈ arrived levels := by
  rw [lastQuantity, Option.isSome_map, List.find?_isSome, arrived, List.mem_eraseDups, List.mem_map]
  simp [onSide]

theorem lastQuantity_onSide_concat (isAsk : Bool) (levels : List (Level P Q)) (l : Level P Q)
    (price : P) :
    lastQuantity (onSide isAsk (levels ++ [l])) isAsk price =
      if l.price = price then some l.quantity
      else lastQuantity (onSide isAsk levels) isAsk price := by
  rw [onSide, List.map_append, List.map_singleton, lastQuantity_append, lastQuantity_singleton]
  by_cases h : l.price = price
  · rw [if_pos ⟨rfl, h⟩, if_pos h, Option.some_or]
  · rw [if_neg (fun h' => h h'.2), if_neg h, Option.none_or]
    rfl

/-! ## What the book holds -/

theorem kept_concat_of_mem {levels : List (Level P Q)} {l : Level P Q}
    (h : l.price ∈ arrived levels) : kept (levels ++ [l]) = kept levels := by
  rw [kept, arrived_concat, if_pos h, kept]

theorem kept_concat_of_full {levels : List (Level P Q)} (l : Level P Q)
    (h : kMaxOrderbookLevels ≤ (arrived levels).length) : kept (levels ++ [l]) = kept levels := by
  rw [kept, arrived_concat]
  split
  next => rfl
  next => exact List.take_append_of_le_length h

theorem kept_concat_of_lt {levels : List (Level P Q)} {l : Level P Q}
    (h : (arrived levels).length < kMaxOrderbookLevels) (hnew : l.price ∉ arrived levels) :
    kept (levels ++ [l]) = arrived levels ++ [l.price] := by
  rw [kept, arrived_concat, if_neg hnew, List.take_of_length_le]
  rw [List.length_append, List.length_singleton]
  exact h

theorem keptMap_concat_self {isAsk : Bool} {levels : List (Level P Q)} {l : Level P Q}
    (h : ∀ price, price ∈ kept (levels ++ [l]) ↔ price ∈ kept levels ∨ price = l.price) :
    keptMap isAsk (levels ++ [l]) =
      Function.update (keptMap isAsk levels) l.price (some l.quantity) := by
  funext price
  rw [keptMap, lastQuantity_onSide_concat]
  rcases eq_or_ne price l.price with rfl | hne
  · rw [if_pos ((h _).mpr (.inr rfl)), if_pos rfl, Function.update_self]
  · rw [if_neg hne.symm, Function.update_of_ne hne, keptMap]
    exact if_congr ((h price).trans (or_iff_left hne)) rfl rfl

theorem keptMap_concat_dropped {isAsk : Bool} {levels : List (Level P Q)} {l : Level P Q}
    (h : kept (levels ++ [l]) = kept levels) (hnew : l.price ∉ kept levels) :
    keptMap isAsk (levels ++ [l]) = keptMap isAsk levels := by
  funext price
  rw [keptMap, h, lastQuantity_onSide_concat, keptMap]
  split
  next hmem =>
    rw [if_neg]
    rintro rfl
    exact hnew hmem
  next => rfl

theorem isSome_keptMap_iff (isAsk : Bool) (levels : List (Level P Q)) (price : P) :
    (keptMap isAsk levels price).isSome = true ↔ price ∈ kept levels := by
  rw [keptMap]
  split
  next h => exact iff_of_true ((isSome_lastQuantity_iff ..).mpr (List.mem_of_mem_take h)) h
  next h => exact iff_of_false Bool.false_ne_true h

theorem length_eq_of_lists {isAsk : Bool} {levels : List (Level P Q)} {side : List (Level P Q)}
    (h : Lists isAsk (keptMap isAsk levels) side) : side.length = (kept levels).length := by
  have hperm : (side.map (·.price)).Perm (kept levels) := by
    refine (List.perm_ext_iff_of_nodup h.nodup_prices ?_).mpr fun price => ?_
    · exact (nodup_arrived levels).sublist (List.take_sublist ..)
    · rw [← h.isSome_iff, isSome_keptMap_iff]
  rw [← hperm.length_eq, List.length_map]

variable [LinearOrder Q] [Zero Q]

theorem lists_kept_updates {isAsk : Bool} {levels : List (Level P Q)} {l : Level P Q}
    {side side' : List (Level P Q)} (h : Lists isAsk (keptMap isAsk levels) side)
    (hpos : 0 < l.quantity) (hup : Updates isAsk l.price l.quantity side side')
    (hle : side'.length ≤ kMaxOrderbookLevels) :
    Lists isAsk (keptMap isAsk (levels ++ [l])) side' := by
  have hlen := length_eq_of_lists h
  have hon : (∃ r ∈ side, r.price = l.price) ↔ l.price ∈ kept levels := by
    rw [← isSome_keptMap_iff isAsk, h.isSome_iff, List.mem_map]
  have hkeep (hkept : ¬Dropped l.price l.quantity side)
      (hmem : ∀ price, price ∈ kept (levels ++ [l]) ↔ price ∈ kept levels ∨ price = l.price) :
      Lists isAsk (keptMap isAsk (levels ++ [l])) side' := by
    have hlists := h.updates hup hkept
    rwa [if_pos hpos, ← keptMap_concat_self hmem] at hlists
  by_cases hold : l.price ∈ kept levels
  · -- the price is on the side
    refine hkeep (fun hdropped => ?_) fun price => ?_
    · obtain ⟨r, hr, hprice⟩ := hon.mpr hold
      exact hdropped.2.1 r hr hprice
    · rw [kept_concat_of_mem (List.mem_of_mem_take hold)]
      exact (or_iff_left_of_imp fun heq => heq ▸ hold).symm
  · rcases Nat.lt_or_ge (arrived levels).length kMaxOrderbookLevels with hlt | hfull
    · -- there is room
      have hall : kept levels = arrived levels := List.take_of_length_le hlt.le
      refine hkeep (fun hdropped => ?_) fun price => ?_
      · have hge := hdropped.2.2
        rw [hlen, hall] at hge
        omega
      · rw [kept_concat_of_lt hlt (hall ▸ hold), hall, List.mem_append, List.mem_singleton]
    · -- the side is full
      have hdropped : Dropped l.price l.quantity side := by
        refine ⟨hpos, fun r hr hprice => hold (hon.mp ⟨r, hr, hprice⟩), ?_⟩
        rw [hlen, kept, List.length_take, Nat.min_eq_left hfull]
      rw [hup.eq_of_dropped hle hdropped, keptMap_concat_dropped (kept_concat_of_full l hfull) hold]
      exact h

/-- The side holds the prices that came first. -/
theorem applyAll_lists_kept [Zero P] (isAsk : Bool) {levels : List (Level P Q)}
    (hpos : ∀ l ∈ levels, 0 < l.quantity) :
    ∃ b, init.applyAll (onSide isAsk levels) = some b ∧
      (b.side isAsk).count ≤ kMaxOrderbookLevels ∧
      Lists isAsk (keptMap isAsk levels) (b.side isAsk).toList := by
  induction levels using List.reverseRecOn with
  | nil =>
    exact ⟨init, rfl, by cases isAsk <;> exact Nat.zero_le _,
      lists_init isAsk fun price => ite_self _⟩
  | append_singleton levels l ih =>
    rw [List.forall_mem_append, List.forall_mem_singleton] at hpos
    obtain ⟨b, hb, hle, hlists⟩ := ih hpos.1
    obtain ⟨side, hside, hle', hup⟩ := applySide_eq_some isAsk l.price l.quantity hle
    have hlevel : b.applyLevel l.price l.quantity isAsk = some (b.setSide side isAsk) :=
      applyLevel_eq_some.mpr ⟨side, hside, rfl⟩
    refine ⟨b.setSide side isAsk, ?_, ?_, ?_⟩
    · rw [onSide, List.map_append, applyAll_append, ← onSide, hb, Option.bind_some]
      exact congrArg (Option.bind · _) hlevel
    · rwa [setSide_side]
    · rw [setSide_side]
      exact lists_kept_updates hlists hpos.2 hup ((length_toList hle').trans_le hle')

/-! ## When these are the best -/

section
omit [LinearOrder Q] [Zero Q]

theorem betterCount_lt_iff {isAsk : Bool} {levels : List (Level P Q)} (h : LaterWorse isAsk levels)
    {price : P} (hprice : price ∈ arrived levels) :
    betterCount isAsk levels price < kMaxOrderbookLevels ↔ price ∈ kept levels := by
  have hsplit : betterCount isAsk levels price = (kept levels).countP (Before isAsk · price) +
      ((arrived levels).drop kMaxOrderbookLevels).countP (Before isAsk · price) := by
    rw [← List.countP_append, kept_append_drop, betterCount]
  have hlen : (kept levels).length ≤ kMaxOrderbookLevels := List.length_take_le ..
  rw [← kept_append_drop levels, List.mem_append] at hprice
  rcases hprice with hkept | hlater
  · -- the later prices are worse, and the price is not better than itself
    refine iff_of_true ?_ hkept
    have hdrop : ((arrived levels).drop kMaxOrderbookLevels).countP (Before isAsk · price) = 0 := by
      refine List.countP_eq_zero.mpr fun p hp hbefore => ?_
      exact (h price hkept p hp).asymm (of_decide_eq_true hbefore)
    have hlt : (kept levels).countP (Before isAsk · price) < (kept levels).length := by
      refine List.countP_lt_length_iff.mpr ⟨price, hkept, decide_eq_false fun hself => ?_⟩
      exact Before.ne hself rfl
    omega
  · -- all the first prices are better
    refine iff_of_false ?_ (not_mem_kept_of_mem_drop hlater)
    have hall : (kept levels).countP (Before isAsk · price) = (kept levels).length :=
      List.countP_eq_length.mpr fun p hp => decide_eq_true (h p hp price hlater)
    have hfull : (kept levels).length = kMaxOrderbookLevels := by
      have hpos := List.length_pos_of_mem hlater
      rw [List.length_drop] at hpos
      rw [kept, List.length_take]
      omega
    omega

theorem betterCount_mono {isAsk : Bool} {levels : List (Level P Q)} {p p' : P}
    (h : Before isAsk p p') : betterCount isAsk levels p ≤ betterCount isAsk levels p' := by
  refine List.countP_mono_left fun r _ hr => ?_
  exact decide_eq_true (Before.trans (of_decide_eq_true hr) h)

theorem lists_best_iff {isAsk : Bool} {levels side : List (Level P Q)}
    (h : Lists isAsk (keptMap isAsk levels) side) :
    Lists isAsk (bestMap isAsk levels) side ↔ LaterWorse isAsk levels := by
  constructor
  · intro hbest p hp p' hp'
    have hmap := hbest.map_unique h
    have hmem : p' ∈ arrived levels := List.mem_of_mem_drop hp'
    by_contra hnot
    have hbefore : Before isAsk p' p := by
      refine Before.of_not hnot ?_
      rintro rfl
      exact not_mem_kept_of_mem_drop hp' hp
    -- the later price would be among the best with the earlier one
    have hlt : betterCount isAsk levels p < kMaxOrderbookLevels := by
      by_contra hge
      have hnone := congrFun hmap p
      rw [bestMap, if_neg hge] at hnone
      have hsome := (isSome_keptMap_iff isAsk levels p).mpr hp
      rw [← hnone] at hsome
      cases hsome
    have heq := congrFun hmap p'
    rw [bestMap, if_pos ((betterCount_mono hbefore).trans_lt hlt), keptMap,
      if_neg (not_mem_kept_of_mem_drop hp')] at heq
    have hsome := (isSome_lastQuantity_iff isAsk levels p').mpr hmem
    rw [heq] at hsome
    cases hsome
  · intro hlater
    have hmap : bestMap isAsk levels = keptMap isAsk levels := by
      funext price
      rw [bestMap, keptMap]
      by_cases hprice : price ∈ arrived levels
      · exact if_congr (betterCount_lt_iff hlater hprice) rfl rfl
      · have hnone : lastQuantity (onSide isAsk levels) isAsk price = none := by
          rw [← Option.not_isSome_iff_eq_none, isSome_lastQuantity_iff]
          exact hprice
        rw [hnone, ite_self, ite_self]
    exact hmap ▸ h

/-- The best of all prices is at level 0. -/
theorem head?_of_lists_best {isAsk : Bool} {levels side : List (Level P Q)}
    (h : Lists isAsk (bestMap isAsk levels) side) {price : P} (hprice : price ∈ arrived levels)
    (hbest : ∀ p ∈ arrived levels, ¬Before isAsk p price) :
    side.head?.map (·.price) = some price := by
  have hcount : betterCount isAsk levels price = 0 :=
    List.countP_eq_zero.mpr fun p hp hbefore => hbest p hp (of_decide_eq_true hbefore)
  have hsome : (bestMap isAsk levels price).isSome = true := by
    rw [bestMap, hcount, if_pos (by decide)]
    exact (isSome_lastQuantity_iff ..).mpr hprice
  rw [h.isSome_iff, List.mem_map] at hsome
  obtain ⟨l, hl, rfl⟩ := hsome
  cases side with
  | nil => cases hl
  | cons first rest =>
    rcases List.mem_cons.mp hl with rfl | hrest
    · rfl
    · have hfirst : first.price ∈ arrived levels := by
        have hmem := (h.isSome_iff first.price).mpr (List.mem_map_of_mem List.mem_cons_self)
        rw [bestMap] at hmem
        split at hmem
        next => exact (isSome_lastQuantity_iff ..).mp hmem
        next => cases hmem
      exact absurd (List.rel_of_pairwise_cons h.sorted hrest) (hbest _ hfirst)

end

/-- The side holds the best of the prices, the best one first, just in case every price that came
when it was full is worse than those on it. -/
theorem applyAll_lists_best_iff [Zero P] (isAsk : Bool) (levels : List (Level P Q))
    (hpos : ∀ l ∈ levels, 0 < l.quantity) :
    ∃ b, init.applyAll (onSide isAsk levels) = some b ∧
      (Lists isAsk (bestMap isAsk levels) (b.side isAsk).toList ↔ LaterWorse isAsk levels) ∧
      (LaterWorse isAsk levels → ∀ price ∈ arrived levels,
        (∀ p ∈ arrived levels, ¬Before isAsk p price) →
        (b.side isAsk).toList.head?.map (·.price) = some price) := by
  obtain ⟨b, hb, -, hlists⟩ := applyAll_lists_kept isAsk hpos
  refine ⟨b, hb, lists_best_iff hlists, fun hlater price hprice hbest => ?_⟩
  exact head?_of_lists_best ((lists_best_iff hlists).mpr hlater) hprice hbest

/-- Asks at 100 prices, each better than the one before, and then a better one. -/
def improvingAsks : List (Level Int Int) := (List.range 101).map fun i => ⟨101 - i, 1⟩

theorem best_ask_lost :
    (⟨1, 1⟩ ∈ improvingAsks ∧ ∀ l ∈ improvingAsks, 0 < l.quantity ∧ 1 ≤ l.price) ∧
      ∃ b, init.applyAll (onSide true improvingAsks) = some b ∧
        (∀ l ∈ (b.side true).toList, l.price ≠ 1) ∧
        ¬Lists true (bestMap true improvingAsks) (b.side true).toList := by
  have hasks : ⟨1, 1⟩ ∈ improvingAsks ∧ ∀ l ∈ improvingAsks, 0 < l.quantity ∧ 1 ≤ l.price := by
    decide
  obtain ⟨b, hb, -, hlists⟩ := applyAll_lists_kept true fun l hl => (hasks.2 l hl).1
  have harrived : arrived improvingAsks = improvingAsks.map (·.price) := by decide +kernel
  have hlost : (1 : Int) ∉ kept improvingAsks := by
    rw [kept, harrived]
    decide
  refine ⟨hasks, b, hb, fun l hl hprice => hlost ?_, fun hbest => ?_⟩
  · rw [← isSome_keptMap_iff true, hlists.isSome_iff, ← hprice]
    exact List.mem_map_of_mem hl
  · have hlater := (lists_best_iff hlists).mp hbest
    rw [LaterWorse, kept, harrived] at hlater
    exact absurd (hlater 101 (by decide) 1 (by decide)) (by decide)

/-- Asks at 101 prices, each worse than the one before. -/
def worseningAsks : List (Level Int Int) := (List.range 101).map fun i => ⟨i, 1⟩

theorem worseningAsks_listed :
    ∃ b, init.applyAll (onSide true worseningAsks) = some b ∧
      Lists true (bestMap true worseningAsks) (b.side true).toList ∧
      (b.side true).toList.head?.map (·.price) = some 0 := by
  have harrived : arrived worseningAsks = worseningAsks.map (·.price) := by decide +kernel
  have hlater : LaterWorse true worseningAsks := by
    rw [LaterWorse, kept, harrived]
    decide +kernel
  obtain ⟨b, hb, hiff, hhead⟩ := applyAll_lists_best_iff true worseningAsks (by decide)
  rw [harrived] at hhead
  exact ⟨b, hb, hiff.mpr hlater, hhead hlater 0 (by decide) (by decide +kernel)⟩

end RithmicOrderBook
end Sqc
