import Mathlib.Data.List.Perm.Basic
import Mathlib.Data.Set.Card
import SmartQuantCollector.RithmicGateway.OrderBookInvariant

/-! # The book as a price map

The purpose of `ApplyLevel` is to keep, for each side, the last quantity given for each price, and
none for a price whose last quantity was not positive (`priceMap`). As long as no more prices are
live than a side has slots, the arrays list this map with the best price first
(`applyAll_eq_priceMap`), whatever was inserted, replaced and deleted in between. -/

namespace Sqc
namespace RithmicOrderBook

open CountedArray

variable {P Q : Type}

section
variable [LinearOrder P]

/-! ## Maps and their lists -/

/-- The levels are the entries of the map, the best price first. -/
structure Lists (isAsk : Bool) (m : P → Option Q) (levels : List (Level P Q)) : Prop where
  sorted : levels.Pairwise fun l r => Before isAsk l.price r.price
  mem_iff : ∀ l, l ∈ levels ↔ m l.price = some l.quantity

variable {isAsk : Bool} {m m' : P → Option Q} {levels levels' : List (Level P Q)}

namespace Lists

theorem nodup_prices (h : Lists isAsk m levels) : (levels.map (·.price)).Nodup :=
  List.pairwise_map.mpr (h.sorted.imp Before.ne)

/-- A map has one list. -/
theorem unique (h : Lists isAsk m levels) (h' : Lists isAsk m levels') : levels = levels' := by
  have hperm : levels.Perm levels' := by
    refine (List.perm_ext_iff_of_nodup h.nodup_prices.of_map h'.nodup_prices.of_map).mpr fun l => ?_
    rw [h.mem_iff, h'.mem_iff]
  refine hperm.eq_of_pairwise (fun l r _ _ hlr hrl => ?_) h.sorted h'.sorted
  exact absurd hrl hlr.asymm

/-- A list is that of one map. -/
theorem map_unique (h : Lists isAsk m levels) (h' : Lists isAsk m' levels) : m = m' := by
  funext price
  refine Option.ext fun qty => ?_
  exact (h.mem_iff ⟨price, qty⟩).symm.trans (h'.mem_iff ⟨price, qty⟩)

theorem isSome_iff (h : Lists isAsk m levels) (price : P) :
    (m price).isSome = true ↔ price ∈ levels.map (·.price) := by
  rw [Option.isSome_iff_exists, List.mem_map]
  constructor
  · rintro ⟨qty, hqty⟩
    exact ⟨⟨price, qty⟩, (h.mem_iff _).mpr hqty, rfl⟩
  · rintro ⟨l, hl, rfl⟩
    exact ⟨l.quantity, (h.mem_iff l).mp hl⟩

theorem encard_eq (h : Lists isAsk m levels) :
    {price | (m price).isSome = true}.encard = levels.length := by
  have hset : {price | (m price).isSome = true} = ↑(levels.map (·.price)).toFinset := by
    ext price
    rw [Set.mem_ofPred_eq, h.isSome_iff, Finset.mem_coe, List.mem_toFinset]
  rw [hset, Set.encard_coe_eq_coe_finsetCard, List.toFinset_card_of_nodup h.nodup_prices,
    List.length_map]

end Lists

/-! ## What `ApplyLevel` does to the map -/

theorem not_mem_of_sorted {price : P} {front back : List (Level P Q)} {old : Q}
    (h : (front ++ ⟨price, old⟩ :: back).Pairwise fun l r => Before isAsk l.price r.price) (q : Q) :
    ⟨price, q⟩ ∉ front ∧ ⟨price, q⟩ ∉ back := by
  rw [List.pairwise_append, List.pairwise_cons] at h
  obtain ⟨-, ⟨hback, -⟩, hcross⟩ := h
  exact ⟨fun hl => (hcross _ hl _ List.mem_cons_self).ne rfl, fun hl => (hback _ hl).ne rfl⟩

variable [LinearOrder Q] [Zero Q] {price : P} {qty : Q}

theorem Updates.mem_of_ne (h : Updates isAsk price qty levels levels') {l : Level P Q}
    (hne : l.price ≠ price) : l ∈ levels' ↔ l ∈ levels := by
  have hne' : ∀ q : Q, l ≠ ⟨price, q⟩ := by
    rintro q rfl
    exact hne rfl
  cases h with
  | replace _ _ => simp only [List.mem_append, List.mem_cons, hne', false_or]
  | delete _ _ => simp only [List.mem_append, List.mem_cons, hne', false_or]
  | ignore _ _ => exact Iff.rfl
  | insert _ _ _ _ => simp only [List.mem_append, List.mem_cons, hne', false_or]

/-- The side is full and the price is not on it. -/
def Dropped (price : P) (qty : Q) (levels : List (Level P Q)) : Prop :=
  0 < qty ∧ (∀ l ∈ levels, l.price ≠ price) ∧ kMaxOrderbookLevels ≤ levels.length

theorem Updates.eq_of_dropped (h : Updates isAsk price qty levels levels')
    (hle : levels'.length ≤ kMaxOrderbookLevels) (hdropped : Dropped price qty levels) :
    levels' = levels := by
  obtain ⟨-, hne, hfull⟩ := hdropped
  cases h with
  | @replace _ _ old _ _ => exact absurd rfl (hne ⟨price, old⟩ (by simp))
  | @delete _ _ old _ _ => exact absurd rfl (hne ⟨price, old⟩ (by simp))
  | ignore _ _ => rfl
  | insert _ _ _ _ =>
    rw [List.length_append, List.length_cons] at hle
    rw [List.length_append] at hfull
    omega

theorem Updates.mem_self (h : Updates isAsk price qty levels levels')
    (hsorted : levels.Pairwise fun l r => Before isAsk l.price r.price)
    (hkept : ¬Dropped price qty levels) (q : Q) :
    ⟨price, q⟩ ∈ levels' ↔ 0 < qty ∧ q = qty := by
  cases h with
  | replace _ hqty =>
    obtain ⟨hfront, hback⟩ := not_mem_of_sorted hsorted q
    simp [hfront, hback, hqty]
  | delete _ hqty =>
    obtain ⟨hfront, hback⟩ := not_mem_of_sorted hsorted q
    simp [hfront, hback, hqty]
  | ignore hne hreason =>
    have hqty : ¬0 < qty := by
      intro hqty
      rcases hreason with hle | hfull
      · exact absurd hqty (not_lt.mpr hle)
      · exact hkept ⟨hqty, hne, hfull⟩
    exact iff_of_false (fun hl => hne _ hl rfl) fun h => hqty h.1
  | insert hne hqty _ _ =>
    have hnot : (⟨price, q⟩ : Level P Q) ∉ _ := fun hl => hne _ hl rfl
    rw [List.mem_append, not_or] at hnot
    simp [hnot.1, hnot.2, hqty]

/-- An update that is not dropped is an update of the map. -/
theorem Lists.updates (h : Lists isAsk m levels) (hup : Updates isAsk price qty levels levels')
    (hkept : ¬Dropped price qty levels) :
    Lists isAsk (Function.update m price (if 0 < qty then some qty else none)) levels' where
  sorted := hup.sorted h.sorted
  mem_iff l := by
    obtain ⟨p, q⟩ := l
    rcases eq_or_ne p price with rfl | hne
    · rw [hup.mem_self h.sorted hkept, Function.update_self]
      split
      next hqty => simp [hqty, eq_comm]
      next hqty => simp [hqty]
    · rw [hup.mem_of_ne hne, Function.update_of_ne hne]
      exact h.mem_iff ⟨p, q⟩

/-! ## The reference map -/

/-- The quantity of the last update of a price. -/
def lastQuantity (updates : List (Bool × Level P Q)) (isAsk : Bool) (price : P) : Option Q :=
  (updates.reverse.find? fun u => u.1 = isAsk ∧ u.2.price = price).map (·.2.quantity)

/-- The live prices with their quantities. -/
def priceMap (updates : List (Bool × Level P Q)) (isAsk : Bool) (price : P) : Option Q :=
  (lastQuantity updates isAsk price).filter (0 < ·)

/-- At each point, no side has more live prices than a book has levels. -/
def WithinCapacity (updates : List (Bool × Level P Q)) : Prop :=
  ∀ front, front <+: updates → ∀ isAsk,
    {price | (priceMap front isAsk price).isSome = true}.encard ≤ (kMaxOrderbookLevels : ℕ∞)

/-- Both books show the same levels. -/
def SameSides (b b' : RithmicOrderBook P Q) : Prop :=
  ∀ isAsk, (b.side isAsk).toList = (b'.side isAsk).toList

omit [LinearOrder Q] [Zero Q] in
theorem lastQuantity_append (updates updates' : List (Bool × Level P Q)) (isAsk : Bool)
    (price : P) :
    lastQuantity (updates ++ updates') isAsk price =
      (lastQuantity updates' isAsk price).or (lastQuantity updates isAsk price) := by
  rw [lastQuantity, List.reverse_append, List.find?_append, Option.map_or]
  rfl

omit [LinearOrder Q] [Zero Q] in
theorem lastQuantity_singleton (u : Bool × Level P Q) (isAsk : Bool) (price : P) :
    lastQuantity [u] isAsk price =
      if u.1 = isAsk ∧ u.2.price = price then some u.2.quantity else none := by
  rw [lastQuantity, List.reverse_singleton, List.find?_singleton]
  by_cases h : u.1 = isAsk ∧ u.2.price = price
  · rw [if_pos h, if_pos (decide_eq_true h), Option.map_some]
  · rw [if_neg h, if_neg (by simpa using h), Option.map_none]

theorem priceMap_concat_self (updates : List (Bool × Level P Q)) (u : Bool × Level P Q) :
    priceMap (updates ++ [u]) u.1 =
      Function.update (priceMap updates u.1) u.2.price
        (if 0 < u.2.quantity then some u.2.quantity else none) := by
  funext price
  rw [priceMap, lastQuantity_append, lastQuantity_singleton]
  rcases eq_or_ne price u.2.price with rfl | hne
  · rw [if_pos ⟨rfl, rfl⟩, Option.some_or, Function.update_self, Option.filter_some]
    simp only [decide_eq_true_eq]
  · rw [if_neg (fun h => hne h.2.symm), Option.none_or, Function.update_of_ne hne, priceMap]

theorem priceMap_concat_of_ne (updates : List (Bool × Level P Q)) {u : Bool × Level P Q}
    (hne : u.1 ≠ isAsk) : priceMap (updates ++ [u]) isAsk = priceMap updates isAsk := by
  funext price
  rw [priceMap, lastQuantity_append, lastQuantity_singleton, if_neg (fun h => hne h.1),
    Option.none_or, priceMap]

theorem WithinCapacity.of_append {updates updates' : List (Bool × Level P Q)}
    (h : WithinCapacity (updates ++ updates')) : WithinCapacity updates :=
  fun front hfront => h front (hfront.trans (List.prefix_append ..))

/-! ## Runs -/

omit [LinearOrder Q] in
theorem lists_init [Zero P] (isAsk : Bool) (hm : ∀ price, m price = none) :
    Lists isAsk m ((init : RithmicOrderBook P Q).side isAsk).toList := by
  have hnil : ((init : RithmicOrderBook P Q).side isAsk).toList = [] := by cases isAsk <;> rfl
  rw [hnil]
  refine ⟨.nil, fun l => iff_of_false List.not_mem_nil ?_⟩
  rw [hm]
  exact (Option.some_ne_none _).symm

/-- The book lists the map of the updates. -/
structure Refines (b : RithmicOrderBook P Q) (updates : List (Bool × Level P Q)) : Prop where
  count_le : ∀ isAsk, (b.side isAsk).count ≤ kMaxOrderbookLevels
  lists : ∀ isAsk, Lists isAsk (priceMap updates isAsk) (b.side isAsk).toList

theorem refines_init [Zero P] : Refines (init : RithmicOrderBook P Q) [] where
  count_le isAsk := by cases isAsk <;> exact Nat.zero_le _
  lists isAsk := lists_init isAsk fun _ => rfl

/-- No update is dropped while the live prices fit. -/
theorem Refines.not_dropped {b : RithmicOrderBook P Q} {updates : List (Bool × Level P Q)}
    (h : Refines b updates) {u : Bool × Level P Q} (hcap : WithinCapacity (updates ++ [u])) :
    ¬Dropped u.2.price u.2.quantity (b.side u.1).toList := by
  rintro ⟨hqty, hne, hfull⟩
  have hlists := h.lists u.1
  have hlive : {price | (priceMap (updates ++ [u]) u.1 price).isSome = true} =
      insert u.2.price {price | (priceMap updates u.1 price).isSome = true} := by
    ext price
    rw [Set.mem_insert_iff, Set.mem_ofPred_eq, Set.mem_ofPred_eq, priceMap_concat_self, if_pos hqty]
    rcases eq_or_ne price u.2.price with rfl | hprice
    · rw [Function.update_self]
      exact iff_of_true rfl (.inl rfl)
    · rw [Function.update_of_ne hprice]
      exact (or_iff_right hprice).symm
  have hnew : u.2.price ∉ {price | (priceMap updates u.1 price).isSome = true} := by
    rw [Set.mem_ofPred_eq, hlists.isSome_iff, List.mem_map]
    rintro ⟨l, hl, hprice⟩
    exact hne l hl hprice
  have hle := hcap _ List.prefix_rfl u.1
  rw [hlive, Set.encard_insert_of_notMem hnew, hlists.encard_eq] at hle
  have : (b.side u.1).toList.length + 1 ≤ kMaxOrderbookLevels := by exact_mod_cast hle
  omega

theorem Refines.applyLevel {b : RithmicOrderBook P Q} {updates : List (Bool × Level P Q)}
    (h : Refines b updates) {u : Bool × Level P Q} (hcap : WithinCapacity (updates ++ [u])) :
    ∃ b', b.applyLevel u.2.price u.2.quantity u.1 = some b' ∧ Refines b' (updates ++ [u]) := by
  obtain ⟨levels, hside, hle, hup⟩ :=
    applySide_eq_some u.1 u.2.price u.2.quantity (h.count_le u.1)
  have hlists := (h.lists u.1).updates hup (h.not_dropped hcap)
  rw [← priceMap_concat_self] at hlists
  refine ⟨b.setSide levels u.1, applyLevel_eq_some.mpr ⟨levels, hside, rfl⟩, ?_, ?_⟩
  · intro isAsk
    rcases Bool.eq_or_eq_not isAsk u.1 with rfl | rfl
    · rwa [setSide_side]
    · rw [setSide_side_not]
      exact h.count_le _
  · intro isAsk
    rcases Bool.eq_or_eq_not isAsk u.1 with rfl | rfl
    · rwa [setSide_side]
    · rw [setSide_side_not, priceMap_concat_of_ne updates (by simp)]
      exact h.lists _

theorem exists_refines [Zero P] {updates : List (Bool × Level P Q)}
    (hcap : WithinCapacity updates) : ∃ b, init.applyAll updates = some b ∧ Refines b updates := by
  induction updates using List.reverseRecOn with
  | nil => exact ⟨init, rfl, refines_init⟩
  | append_singleton updates u ih =>
    obtain ⟨b, hb, hrefines⟩ := ih hcap.of_append
    obtain ⟨b', hb', hrefines'⟩ := hrefines.applyLevel hcap
    refine ⟨b', ?_, hrefines'⟩
    rw [applyAll_append, hb, Option.bind_some, applyAll_cons, hb']
    rfl

/-! ## What the levels depend on -/

theorem Refines.sameSides {b b' : RithmicOrderBook P Q} {updates updates' : List (Bool × Level P Q)}
    (h : Refines b updates) (h' : Refines b' updates')
    (hlast : ∀ isAsk price, lastQuantity updates isAsk price = lastQuantity updates' isAsk price) :
    SameSides b b' := by
  intro isAsk
  have hmap : priceMap updates isAsk = priceMap updates' isAsk := by
    funext price
    rw [priceMap, priceMap, hlast]
  exact (h.lists isAsk).unique (hmap ▸ h'.lists isAsk)

omit [LinearOrder Q] [Zero Q] in
theorem lastQuantity_swap (front back : List (Bool × Level P Q)) {u v : Bool × Level P Q}
    (hne : (u.1, u.2.price) ≠ (v.1, v.2.price)) (isAsk : Bool) (price : P) :
    lastQuantity (front ++ u :: v :: back) isAsk price =
      lastQuantity (front ++ v :: u :: back) isAsk price := by
  have hswap : (lastQuantity [v] isAsk price).or (lastQuantity [u] isAsk price) =
      (lastQuantity [u] isAsk price).or (lastQuantity [v] isAsk price) := by
    rw [lastQuantity_singleton, lastQuantity_singleton]
    by_cases hu : u.1 = isAsk ∧ u.2.price = price
    · have hv : ¬(v.1 = isAsk ∧ v.2.price = price) := by
        rintro ⟨rfl, rfl⟩
        exact hne (Prod.ext hu.1 hu.2)
      rw [if_pos hu, if_neg hv, Option.none_or, Option.or_none]
    · rw [if_neg hu, Option.none_or, Option.or_none]
  show lastQuantity (front ++ ([u] ++ ([v] ++ back))) isAsk price =
    lastQuantity (front ++ ([v] ++ ([u] ++ back))) isAsk price
  simp only [lastQuantity_append, Option.or_assoc]
  congr 1
  rw [← Option.or_assoc, hswap, Option.or_assoc]

omit [LinearOrder Q] [Zero Q] in
theorem lastQuantity_repeat (front back : List (Bool × Level P Q)) (u : Bool × Level P Q)
    (isAsk : Bool) (price : P) :
    lastQuantity (front ++ u :: u :: back) isAsk price =
      lastQuantity (front ++ u :: back) isAsk price := by
  show lastQuantity (front ++ ([u] ++ ([u] ++ back))) isAsk price =
    lastQuantity (front ++ ([u] ++ back)) isAsk price
  simp only [lastQuantity_append, Option.or_assoc]
  congr 1
  rw [← Option.or_assoc, Option.or_self]

theorem WithinCapacity.repeat {front back : List (Bool × Level P Q)} {u : Bool × Level P Q}
    (h : WithinCapacity (front ++ u :: back)) : WithinCapacity (front ++ u :: u :: back) := by
  intro part hpart isAsk
  have hsplit : front ++ u :: u :: back = (front ++ [u]) ++ u :: back := by simp
  have honce : front ++ u :: back = (front ++ [u]) ++ back := by simp
  rw [hsplit] at hpart
  rcases List.prefix_or_prefix_of_prefix hpart (List.prefix_append (front ++ [u]) _) with
    hshort | ⟨rest, rfl⟩
  · exact h part (hshort.trans (honce ▸ List.prefix_append ..)) isAsk
  · rcases List.prefix_cons_iff.mp ((List.prefix_append_right_inj _).mp hpart) with
      rfl | ⟨rest, rfl, hrest⟩
    · exact h _ (by rw [List.append_nil, honce]; exact List.prefix_append ..) isAsk
    · have hmap : priceMap (front ++ [u] ++ u :: rest) isAsk =
          priceMap (front ++ u :: rest) isAsk := by
        funext price
        rw [List.append_assoc, priceMap, priceMap]
        exact congrArg _ (lastQuantity_repeat front rest u isAsk price)
      rw [hmap]
      refine h (front ++ u :: rest) ?_ isAsk
      exact (List.prefix_append_right_inj _).mpr ((List.prefix_cons_inj u).mpr hrest)

/-- `ApplyLevel` refines the map: while the live prices fit, each side lists them with their last
quantities. So the levels depend on the last update of each price only, updates of different prices
commute, and repeating an update changes nothing. -/
theorem applyAll_eq_priceMap [Zero P] (updates : List (Bool × Level P Q))
    (hcap : WithinCapacity updates) :
    ∃ b, init.applyAll updates = some b ∧
      (∀ isAsk, Lists isAsk (priceMap updates isAsk) (b.side isAsk).toList) ∧
      (∀ updates', WithinCapacity updates' →
        (∀ isAsk price, lastQuantity updates isAsk price = lastQuantity updates' isAsk price) →
        ∃ b', init.applyAll updates' = some b' ∧ SameSides b b') ∧
      (∀ front u v back, updates = front ++ u :: v :: back →
        (u.1, u.2.price) ≠ (v.1, v.2.price) → WithinCapacity (front ++ v :: u :: back) →
        ∃ b', init.applyAll (front ++ v :: u :: back) = some b' ∧ SameSides b b') ∧
      (∀ front u back, updates = front ++ u :: back →
        ∃ b', init.applyAll (front ++ u :: u :: back) = some b' ∧ SameSides b b') := by
  obtain ⟨b, hb, hrefines⟩ := exists_refines hcap
  have hsame : ∀ updates', WithinCapacity updates' →
      (∀ isAsk price, lastQuantity updates isAsk price = lastQuantity updates' isAsk price) →
      ∃ b', init.applyAll updates' = some b' ∧ SameSides b b' := by
    intro updates' hcap' hlast
    obtain ⟨b', hb', hrefines'⟩ := exists_refines hcap'
    exact ⟨b', hb', hrefines.sameSides hrefines' hlast⟩
  refine ⟨b, hb, hrefines.lists, hsame, ?_, ?_⟩
  · rintro front u v back rfl hne hcap'
    exact hsame _ hcap' (lastQuantity_swap front back hne)
  · rintro front u back rfl
    exact hsame _ hcap.repeat fun isAsk price => (lastQuantity_repeat front back u isAsk price).symm

/-- A short sequence fits whatever it does. -/
theorem withinCapacity_of_length_le {updates : List (Bool × Level P Q)}
    (h : updates.length ≤ kMaxOrderbookLevels) : WithinCapacity updates := by
  intro front hfront isAsk
  have hsub : {price | (priceMap front isAsk price).isSome = true} ⊆
      ↑(front.map (·.2.price)).toFinset := by
    intro price hprice
    obtain ⟨qty, hqty⟩ := Option.isSome_iff_exists.mp hprice
    obtain ⟨u, hu, -⟩ := Option.map_eq_some_iff.mp (Option.filter_eq_some_iff.mp hqty).1
    have hkey := List.find?_some hu
    simp only [decide_eq_true_eq] at hkey
    rw [Finset.mem_coe, List.mem_toFinset, ← hkey.2]
    exact List.mem_map_of_mem (List.mem_reverse.mp (List.mem_of_find?_eq_some hu))
  refine (Set.encard_le_encard hsub).trans ?_
  rw [Set.encard_coe_eq_coe_finsetCard]
  have hcard := List.toFinset_card_le (front.map (·.2.price))
  rw [List.length_map] at hcard
  exact_mod_cast hcard.trans (hfront.length_le.trans h)

/-- Asks at 10 and 12 and a bid; then 10 is replaced, 12 deleted and 11 put between. -/
def sixUpdates : List (Bool × Level Int Int) :=
  [(true, ⟨12, 1⟩), (true, ⟨10, 5⟩), (false, ⟨9, 4⟩), (true, ⟨10, 7⟩), (true, ⟨12, 0⟩),
    (true, ⟨11, 2⟩)]

theorem sixUpdates_listed :
    priceMap sixUpdates true 10 = some 7 ∧ priceMap sixUpdates true 12 = none ∧
      ∃ b, init.applyAll sixUpdates = some b ∧
        ∀ isAsk, Lists isAsk (priceMap sixUpdates isAsk) (b.side isAsk).toList := by
  have hcap : WithinCapacity sixUpdates := withinCapacity_of_length_le (by decide)
  obtain ⟨b, hb, hlists, -⟩ := applyAll_eq_priceMap sixUpdates hcap
  exact ⟨by decide, by decide, b, hb, hlists⟩

end

end RithmicOrderBook
end Sqc
