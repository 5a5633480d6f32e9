import Mathlib.Order.Defs.LinearOrder
import SmartQuantCollector.Common.MarketEvent
import SmartQuantCollector.Lib.CountedArray

/-! # The gateway's order book (`src/rithmic_gateway/rithmic_orderbook.h`)

Four fixed arrays, two for the book and two for the levels of a batch that is being received. The
operations run over any linear orders of prices and quantities. An operation returns `none` when it
would touch a slot outside the arrays. -/

namespace Sqc

open CountedArray

/-- `PriceLevel`, over the prices and quantities of the development. -/
structure Level (P Q : Type) where
  price : P
  quantity : Q
deriving DecidableEq

/-- `static_cast<double>` of a `long long`: all that is used of it is that it keeps sizes
positive. -/
structure SizeCast (Q : Type) [LinearOrder Q] [Zero Q] where
  cast : Int64 → Q
  cast_pos : ∀ {size : Int64}, 0 < size → 0 < cast size

/-- One side's array and its count. -/
abbrev Levels (P Q : Type) := CountedArray (Level P Q) kMaxOrderbookLevels

structure RithmicOrderBook (P Q : Type) where
  bids : Levels P Q
  asks : Levels P Q
  pendingBids : Levels P Q
  pendingAsks : Levels P Q
  batchActive : Bool

/-- Whether `p` stands before `q` on a side: asks ascend, bids descend. -/
def Before {P : Type} [LinearOrder P] : (isAsk : Bool) → P → P → Prop
  | true, p, q => p < q
  | false, p, q => q < p

instance {P : Type} [LinearOrder P] : ∀ (isAsk : Bool) (p q : P), Decidable (Before isAsk p q)
  | true, p, q => inferInstanceAs (Decidable (p < q))
  | false, p, q => inferInstanceAs (Decidable (q < p))

theorem Before.trans {P : Type} [LinearOrder P] {isAsk : Bool} {p q r : P}
    (h : Before isAsk p q) (h' : Before isAsk q r) : Before isAsk p r := by
  cases isAsk with
  | true => exact lt_trans (α := P) h h'
  | false => exact lt_trans (α := P) h' h

theorem Before.of_not {P : Type} [LinearOrder P] {isAsk : Bool} {p q : P}
    (h : ¬Before isAsk p q) (hne : p ≠ q) : Before isAsk q p := by
  cases isAsk with
  | true => exact lt_of_le_of_ne (not_lt.mp h) hne.symm
  | false => exact lt_of_le_of_ne (not_lt.mp h) hne

theorem Before.ne {P : Type} [LinearOrder P] {isAsk : Bool} {p q : P} (h : Before isAsk p q) :
    p ≠ q := by
  cases isAsk with
  | true => exact ne_of_lt (α := P) h
  | false => exact ne_of_gt (α := P) h

theorem Before.asymm {P : Type} [LinearOrder P] {isAsk : Bool} {p q : P} (h : Before isAsk p q) :
    ¬Before isAsk q p := fun h' => Before.ne (h.trans h') rfl

namespace RithmicOrderBook

variable {P Q : Type}

def init [Zero P] [Zero Q] : RithmicOrderBook P Q where
  bids := .empty ⟨0, 0⟩
  asks := .empty ⟨0, 0⟩
  pendingBids := .empty ⟨0, 0⟩
  pendingAsks := .empty ⟨0, 0⟩
  batchActive := false

/-- `is_ask ? asks_ : bids_`. -/
def side (b : RithmicOrderBook P Q) : (isAsk : Bool) → Levels P Q
  | true => b.asks
  | false => b.bids

def setSide (b : RithmicOrderBook P Q) (levels : Levels P Q) :
    (isAsk : Bool) → RithmicOrderBook P Q
  | true => { b with asks := levels }
  | false => { b with bids := levels }

/-- `is_ask ? pending_asks_ : pending_bids_`. -/
def pending (b : RithmicOrderBook P Q) : (isAsk : Bool) → Levels P Q
  | true => b.pendingAsks
  | false => b.pendingBids

def setPending (b : RithmicOrderBook P Q) (levels : Levels P Q) :
    (isAsk : Bool) → RithmicOrderBook P Q
  | true => { b with pendingAsks := levels }
  | false => { b with pendingBids := levels }

@[simp] theorem setSide_side (b : RithmicOrderBook P Q) (levels : Levels P Q) (isAsk : Bool) :
    (b.setSide levels isAsk).side isAsk = levels := by cases isAsk <;> rfl

@[simp] theorem setSide_side_not (b : RithmicOrderBook P Q) (levels : Levels P Q)
    (isAsk : Bool) : (b.setSide levels isAsk).side (!isAsk) = b.side (!isAsk) := by
  cases isAsk <;> rfl

@[simp] theorem setSide_pending (b : RithmicOrderBook P Q) (levels : Levels P Q)
    (isAsk isAsk' : Bool) : (b.setSide levels isAsk).pending isAsk' = b.pending isAsk' := by
  cases isAsk <;> cases isAsk' <;> rfl

@[simp] theorem setPending_pending (b : RithmicOrderBook P Q) (levels : Levels P Q)
    (isAsk : Bool) : (b.setPending levels isAsk).pending isAsk = levels := by
  cases isAsk <;> rfl

@[simp] theorem setPending_pending_not (b : RithmicOrderBook P Q) (levels : Levels P Q)
    (isAsk : Bool) : (b.setPending levels isAsk).pending (!isAsk) = b.pending (!isAsk) := by
  cases isAsk <;> rfl

@[simp] theorem setPending_side (b : RithmicOrderBook P Q) (levels : Levels P Q)
    (isAsk isAsk' : Bool) : (b.setPending levels isAsk).side isAsk' = b.side isAsk' := by
  cases isAsk <;> cases isAsk' <;> rfl

@[simp] theorem setPending_batchActive (b : RithmicOrderBook P Q) (levels : Levels P Q)
    (isAsk : Bool) : (b.setPending levels isAsk).batchActive = b.batchActive := by
  cases isAsk <;> rfl

/-! ## Operations -/

variable [LinearOrder P] [LinearOrder Q] [Zero Q]

/-- The loop of `ApplyImage`, with `k` entries left from `i` on. -/
def imageLoop (sc : SizeCast Q) (prices : Nat → P) (sizes : Nat → Int64) :
    (k i : Nat) → Levels P Q → Option (Levels P Q)
  | 0, _, levels => some levels
  | k + 1, i, levels =>
    if levels.count < kMaxOrderbookLevels then
      if 0 < sizes i then do
        let levels ← levels.push ⟨prices i, sc.cast (sizes i)⟩
        imageLoop sc prices sizes k (i + 1) levels
      else imageLoop sc prices sizes k (i + 1) levels
    else some levels

def applyImage (sc : SizeCast Q) (b : RithmicOrderBook P Q) (prices : Nat → P)
    (sizes : Nat → Int64) (count : Int) (isAsk : Bool) : Option (RithmicOrderBook P Q) := do
  let levels ← imageLoop sc prices sizes count.toNat 0 (b.side isAsk).reset
  return b.setSide levels isAsk

/-- `ApplyLevel` on the array of one side. -/
def applySide (isAsk : Bool) (levels : Levels P Q) (price : P) (qty : Q) :
    Option (Levels P Q) := do
  let pos ← levels.scan fun l => l.price ≠ price
  if pos < levels.count then
    if 0 < qty then
      let l ← read levels.slots pos
      levels.setAt pos { l with quantity := qty }
    else levels.eraseAt pos
  else if qty ≤ 0 then return levels
  else if kMaxOrderbookLevels ≤ levels.count then return levels
  else
    let insertPos ← levels.scan fun l => Before isAsk l.price price
    levels.insertAt insertPos ⟨price, qty⟩

def applyLevel (b : RithmicOrderBook P Q) (price : P) (qty : Q) (isAsk : Bool) :
    Option (RithmicOrderBook P Q) := do
  let levels ← applySide isAsk (b.side isAsk) price qty
  return b.setSide levels isAsk

def beginBatch (b : RithmicOrderBook P Q) : RithmicOrderBook P Q :=
  { b with pendingBids := b.pendingBids.reset, pendingAsks := b.pendingAsks.reset,
           batchActive := true }

def bufferLevel (b : RithmicOrderBook P Q) (price : P) (qty : Q) (isAsk : Bool) :
    Option (RithmicOrderBook P Q) :=
  if kMaxOrderbookLevels ≤ (b.pending isAsk).count then some b
  else do
    let levels ← (b.pending isAsk).push ⟨price, qty⟩
    return b.setPending levels isAsk

/-- One loop of `CommitBatch`, with `k` pending levels left from `i` on. -/
def commitLoop (isAsk : Bool) : (k i : Nat) → RithmicOrderBook P Q → Option (RithmicOrderBook P Q)
  | 0, _, b => some b
  | k + 1, i, b => do
    let l ← read (b.pending isAsk).slots i
    let b ← b.applyLevel l.price l.quantity isAsk
    commitLoop isAsk k (i + 1) b

def cancelBatch (b : RithmicOrderBook P Q) : RithmicOrderBook P Q :=
  { b with pendingBids := b.pendingBids.reset, pendingAsks := b.pendingAsks.reset,
           batchActive := false }

def commitBatch (b : RithmicOrderBook P Q) : Option (RithmicOrderBook P Q) := do
  let b ← commitLoop false b.pendingBids.count 0 b
  let b ← commitLoop true b.pendingAsks.count 0 b
  return { b with pendingBids := b.pendingBids.reset, pendingAsks := b.pendingAsks.reset,
                  batchActive := false }

def clear (b : RithmicOrderBook P Q) : RithmicOrderBook P Q where
  bids := b.bids.reset
  asks := b.asks.reset
  pendingBids := b.pendingBids.reset
  pendingAsks := b.pendingAsks.reset
  batchActive := false

/-! ## What the operations do to the lists of levels -/

/-- The levels `ApplyImage` reads: the entries of positive size, in order. -/
def imageLevels (sc : SizeCast Q) (prices : Nat → P) (sizes : Nat → Int64) (i k : Nat) :
    List (Level P Q) :=
  ((List.range' i k).filter fun j => 0 < sizes j).map fun j => ⟨prices j, sc.cast (sizes j)⟩

/-- The four ways in which `ApplyLevel` may change the levels of a side. -/
inductive Updates (isAsk : Bool) (price : P) (qty : Q) :
    List (Level P Q) → List (Level P Q) → Prop
  | replace {front back : List (Level P Q)} {old : Q} :
    (∀ l ∈ front, l.price ≠ price) → 0 < qty →
    Updates isAsk price qty (front ++ ⟨price, old⟩ :: back) (front ++ ⟨price, qty⟩ :: back)
  | delete {front back : List (Level P Q)} {old : Q} :
    (∀ l ∈ front, l.price ≠ price) → ¬0 < qty →
    Updates isAsk price qty (front ++ ⟨price, old⟩ :: back) (front ++ back)
  | ignore {levels : List (Level P Q)} :
    (∀ l ∈ levels, l.price ≠ price) → qty ≤ 0 ∨ kMaxOrderbookLevels ≤ levels.length →
    Updates isAsk price qty levels levels
  | insert {front back : List (Level P Q)} :
    (∀ l ∈ front ++ back, l.price ≠ price) → 0 < qty →
    (∀ l ∈ front, Before isAsk l.price price) →
    (∀ l ∈ back.head?, ¬Before isAsk l.price price) →
    Updates isAsk price qty (front ++ back) (front ++ ⟨price, qty⟩ :: back)

omit [LinearOrder P] in
theorem imageLoop_eq_some (sc : SizeCast Q) (prices : Nat → P) (sizes : Nat → Int64)
    {k i : Nat} {levels : Levels P Q} (h : levels.count ≤ kMaxOrderbookLevels) :
    ∃ levels', imageLoop sc prices sizes k i levels = some levels' ∧
      levels'.count ≤ kMaxOrderbookLevels ∧
      levels'.toList = levels.toList ++
        (imageLevels sc prices sizes i k).take (kMaxOrderbookLevels - levels.count) := by
  induction k generalizing i levels with
  | zero => exact ⟨levels, rfl, h, by simp [imageLevels]⟩
  | succ k ih =>
    rcases Nat.lt_or_ge levels.count kMaxOrderbookLevels with hlt | hge
    · by_cases hsize : 0 < sizes i
      · obtain ⟨pushed, hpush, hcount, hlist⟩ :=
          push_eq_some (⟨prices i, sc.cast (sizes i)⟩ : Level P Q) hlt
        have hle : pushed.count ≤ kMaxOrderbookLevels := by omega
        obtain ⟨levels', hloop, hle', hlist'⟩ := ih (i := i + 1) hle
        refine ⟨levels', ?_, hle', ?_⟩
        · simp only [imageLoop, if_pos hlt, if_pos hsize, hpush, Option.bind_eq_bind,
            Option.bind_some, hloop]
        · have htake : kMaxOrderbookLevels - levels.count =
              kMaxOrderbookLevels - pushed.count + 1 := by omega
          rw [hlist', hlist, htake]
          simp [imageLevels, List.range'_succ, hsize]
      · obtain ⟨levels', hloop, hle, hlist'⟩ := ih (i := i + 1) h
        refine ⟨levels', ?_, hle, ?_⟩
        · simp only [imageLoop, if_pos hlt, if_neg hsize, hloop]
        · rw [hlist']
          simp [imageLevels, List.range'_succ, hsize]
    · refine ⟨levels, by simp only [imageLoop, if_neg (Nat.not_lt.mpr hge)], h, ?_⟩
      rw [Nat.sub_eq_zero_of_le hge, List.take_zero, List.append_nil]

omit [LinearOrder P] in
theorem applyImage_eq_some (sc : SizeCast Q) (b : RithmicOrderBook P Q) (prices : Nat → P)
    (sizes : Nat → Int64) (count : Int) (isAsk : Bool) :
    ∃ levels, b.applyImage sc prices sizes count isAsk = some (b.setSide levels isAsk) ∧
      levels.count ≤ kMaxOrderbookLevels ∧
      levels.toList = (imageLevels sc prices sizes 0 count.toNat).take kMaxOrderbookLevels := by
  have hreset : (b.side isAsk).reset.count ≤ kMaxOrderbookLevels := Nat.zero_le _
  obtain ⟨levels, hloop, hle, hlist⟩ :=
    imageLoop_eq_some sc prices sizes (k := count.toNat) (i := 0) hreset
  rw [toList_reset, List.nil_append, count_reset, Nat.sub_zero] at hlist
  exact ⟨levels, by simp [applyImage, hloop], hle, hlist⟩

theorem applySide_eq_some (isAsk : Bool) {levels : Levels P Q} (price : P) (qty : Q)
    (h : levels.count ≤ kMaxOrderbookLevels) :
    ∃ levels', applySide isAsk levels price qty = some levels' ∧
      levels'.count ≤ kMaxOrderbookLevels ∧
      Updates isAsk price qty levels.toList levels'.toList := by
  obtain ⟨front, back, hlist, hscan, hfront, hback⟩ :=
    scan_eq_some (fun l : Level P Q => l.price ≠ price) h
  simp only [ne_eq, decide_not, Bool.not_eq_true', decide_eq_false_iff_not,
    Bool.not_eq_false', decide_eq_true_eq] at hfront hback
  have hlen : levels.count = front.length + back.length := by
    rw [← length_toList h, hlist, List.length_append]
  rw [applySide, hscan]
  simp only [Option.bind_eq_bind, Option.bind_some, Option.pure_def]
  cases back with
  | cons found back =>
    obtain ⟨p, old⟩ := found
    obtain rfl : p = price := hback _ rfl
    rw [List.length_cons] at hlen
    rw [if_pos (by omega)]
    by_cases hq : 0 < qty
    · obtain ⟨levels', hset, hcount, hlist'⟩ := setAt_eq_some (⟨p, qty⟩ : Level P Q) h hlist
      refine ⟨levels', ?_, by omega, hlist ▸ hlist' ▸ .replace hfront hq⟩
      rw [if_pos hq, read_of_toList hlist]
      exact hset
    · obtain ⟨levels', herase, hcount, hlist'⟩ := eraseAt_eq_some h hlist
      refine ⟨levels', ?_, by omega, hlist ▸ hlist' ▸ .delete hfront hq⟩
      rw [if_neg hq, herase]
  | nil =>
    rw [List.append_nil] at hlist
    rw [List.length_nil, Nat.add_zero] at hlen
    subst hlist
    rw [if_neg (by omega)]
    by_cases hq : qty ≤ 0
    · exact ⟨levels, if_pos hq, h, .ignore hfront (.inl hq)⟩
    rw [if_neg hq]
    by_cases hfull : kMaxOrderbookLevels ≤ levels.count
    · exact ⟨levels, if_pos hfull, h, .ignore hfront (.inr (hlen ▸ hfull))⟩
    rw [if_neg hfull]
    obtain ⟨front, back, hlist, hscan', hbefore, hafter⟩ :=
      scan_eq_some (fun l : Level P Q => decide (Before isAsk l.price price)) h
    obtain ⟨levels', hinsert, hcount, hlist'⟩ :=
      insertAt_eq_some (⟨price, qty⟩ : Level P Q) (Nat.lt_of_not_le hfull) hlist
    simp only [decide_eq_true_eq, decide_eq_false_iff_not] at hbefore hafter
    refine ⟨levels', ?_, by omega, ?_⟩
    · rw [hscan', Option.bind_some, hinsert]
    · rw [hlist] at hfront ⊢
      exact hlist' ▸ .insert hfront (not_le.mp hq) hbefore hafter

/-! ## A commit is a replay of the pending levels -/

/-- `ApplyLevel` of each level in turn, with the side it is for. -/
def applyAll (b : RithmicOrderBook P Q) (levels : List (Bool × Level P Q)) :
    Option (RithmicOrderBook P Q) :=
  levels.foldlM (fun b l => b.applyLevel l.2.price l.2.quantity l.1) b

/-- The pending levels in the order in which `CommitBatch` replays them. -/
def batch (b : RithmicOrderBook P Q) : List (Bool × Level P Q) :=
  b.pendingBids.toList.map (false, ·) ++ b.pendingAsks.toList.map (true, ·)

theorem applyLevel_eq_some {b b' : RithmicOrderBook P Q} {price : P} {qty : Q} {isAsk : Bool} :
    b.applyLevel price qty isAsk = some b' ↔
      ∃ levels, applySide isAsk (b.side isAsk) price qty = some levels ∧
        b.setSide levels isAsk = b' := by
  simp [applyLevel, Option.bind_eq_some_iff]

theorem applyAll_nil (b : RithmicOrderBook P Q) : b.applyAll [] = some b := rfl

theorem applyAll_cons (b : RithmicOrderBook P Q) (l : Bool × Level P Q)
    (levels : List (Bool × Level P Q)) :
    b.applyAll (l :: levels) =
      (b.applyLevel l.2.price l.2.quantity l.1).bind (·.applyAll levels) := rfl

theorem applyAll_append (b : RithmicOrderBook P Q) (levels levels' : List (Bool × Level P Q)) :
    b.applyAll (levels ++ levels') = (b.applyAll levels).bind (·.applyAll levels') :=
  List.foldlM_append

theorem applyAll_pending {b b' : RithmicOrderBook P Q} {levels : List (Bool × Level P Q)}
    (h : b.applyAll levels = some b') (isAsk : Bool) : b'.pending isAsk = b.pending isAsk := by
  induction levels generalizing b with
  | nil => cases h; rfl
  | cons l levels ih =>
    rw [applyAll_cons, Option.bind_eq_some_iff] at h
    obtain ⟨u, hu, h⟩ := h
    obtain ⟨_, -, rfl⟩ := applyLevel_eq_some.mp hu
    rw [ih h, setSide_pending]

theorem commitLoop_eq (isAsk : Bool) {k i : Nat} {b : RithmicOrderBook P Q}
    (h : i + k ≤ kMaxOrderbookLevels) :
    commitLoop isAsk k i b =
      b.applyAll ((((b.pending isAsk).slots.toList.drop i).take k).map (isAsk, ·)) := by
  induction k generalizing i b with
  | zero => simp [commitLoop, applyAll_nil]
  | succ k ih =>
    have hlt : i < (b.pending isAsk).slots.toList.length := by simp; omega
    rw [List.drop_eq_getElem_cons hlt, List.take_succ_cons, List.map_cons, applyAll_cons]
    simp only [commitLoop, read_eq_some (show i < kMaxOrderbookLevels by omega),
      Option.bind_eq_bind, Option.bind_some, Vector.getElem_toList]
    refine Option.bind_congr fun u hu => ?_
    obtain ⟨_, -, rfl⟩ := applyLevel_eq_some.mp hu
    rw [ih (by omega), setSide_pending]

theorem commitBatch_eq {b : RithmicOrderBook P Q}
    (h : ∀ isAsk, (b.pending isAsk).count ≤ kMaxOrderbookLevels) :
    b.commitBatch = (b.applyAll b.batch).map cancelBatch := by
  have hbids : commitLoop false b.pendingBids.count 0 b =
      b.applyAll (b.pendingBids.toList.map (false, ·)) :=
    commitLoop_eq false ((Nat.zero_add _).trans_le (h false))
  rw [commitBatch, hbids, batch, applyAll_append]
  simp only [Option.bind_eq_bind, Option.map_bind, Option.pure_def]
  refine Option.bind_congr fun u hu => ?_
  have hpending : u.pendingAsks = b.pendingAsks := applyAll_pending hu true
  have hasks : commitLoop true b.pendingAsks.count 0 u =
      u.applyAll (u.pendingAsks.toList.map (true, ·)) :=
    hpending ▸ commitLoop_eq true ((Nat.zero_add _).trans_le (hpending ▸ h true))
  rw [hpending, hasks, hpending, Function.comp_apply, Option.map_eq_bind]
  rfl

end RithmicOrderBook
end Sqc
