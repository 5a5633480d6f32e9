import Mathlib.Algebra.Ring.Int.Defs
import Mathlib.Data.Int.Order.Basic
import SmartQuantCollector.Lib.Machine
import SmartQuantCollector.RithmicGateway.OrderBook

/-! # The representation invariant of the order book

`Inv S T` is the shape of every invariant of the book: a property `S` of the levels of each side
and a property `T` of each pending level. If `S` is kept by the changes `ApplyLevel` may make with
a level satisfying `T` (`Closed`), every operation keeps `Inv S T`, and none touches a slot outside
the arrays. Taking the order of the prices and the positivity of the quantities for `S` gives the
representation invariant. -/

namespace Sqc
namespace RithmicOrderBook

open CountedArray Concurrency

variable {P Q : Type}

structure Inv (S : Bool → List (Level P Q) → Prop) (T : Bool → Level P Q → Prop)
    (b : RithmicOrderBook P Q) : Prop where
  count_le : ∀ isAsk, (b.side isAsk).count ≤ kMaxOrderbookLevels
  pending_le : ∀ isAsk, (b.pending isAsk).count ≤ kMaxOrderbookLevels
  side : ∀ isAsk, S isAsk (b.side isAsk).toList
  pending : ∀ isAsk, ∀ l ∈ (b.pending isAsk).toList, T isAsk l

variable {S : Bool → List (Level P Q) → Prop} {T : Bool → Level P Q → Prop}
  {b : RithmicOrderBook P Q}

theorem Inv.setSide (h : Inv S T b) {isAsk : Bool} {levels : Levels P Q}
    (hcount : levels.count ≤ kMaxOrderbookLevels) (hS : S isAsk levels.toList) :
    Inv S T (b.setSide levels isAsk) where
  count_le isAsk' := by
    rcases Bool.eq_or_eq_not isAsk' isAsk with rfl | rfl
    · rwa [setSide_side]
    · rw [setSide_side_not]; exact h.count_le _
  pending_le isAsk' := by rw [setSide_pending]; exact h.pending_le _
  side isAsk' := by
    rcases Bool.eq_or_eq_not isAsk' isAsk with rfl | rfl
    · rwa [setSide_side]
    · rw [setSide_side_not]; exact h.side _
  pending isAsk' := by rw [setSide_pending]; exact h.pending _

theorem Inv.setPending (h : Inv S T b) {isAsk : Bool} {levels : Levels P Q}
    (hcount : levels.count ≤ kMaxOrderbookLevels) (hT : ∀ l ∈ levels.toList, T isAsk l) :
    Inv S T (b.setPending levels isAsk) where
  count_le isAsk' := by rw [setPending_side]; exact h.count_le _
  pending_le isAsk' := by
    rcases Bool.eq_or_eq_not isAsk' isAsk with rfl | rfl
    · rwa [setPending_pending]
    · rw [setPending_pending_not]; exact h.pending_le _
  side isAsk' := by rw [setPending_side]; exact h.side _
  pending isAsk' := by
    rcases Bool.eq_or_eq_not isAsk' isAsk with rfl | rfl
    · rwa [setPending_pending]
    · rw [setPending_pending_not]; exact h.pending _

/-- Forgetting the pending levels, whatever becomes of the flag. -/
theorem Inv.dropPending (h : Inv S T b) (active : Bool) :
    Inv S T { b with pendingBids := b.pendingBids.reset, pendingAsks := b.pendingAsks.reset,
                     batchActive := active } where
  count_le
    | true => h.count_le true
    | false => h.count_le false
  pending_le isAsk := by cases isAsk <;> exact Nat.zero_le _
  side
    | true => h.side true
    | false => h.side false
  pending isAsk := by cases isAsk <;> exact List.forall_mem_nil _

theorem Inv.batch (h : Inv S T b) : ∀ l ∈ b.batch, T l.1 l.2 := by
  intro l hl
  rcases List.mem_append.mp hl with hl | hl
  · obtain ⟨l, hbid, rfl⟩ := List.mem_map.mp hl
    exact h.pending false l hbid
  · obtain ⟨l, hask, rfl⟩ := List.mem_map.mp hl
    exact h.pending true l hask

theorem Inv.bufferLevel (h : Inv S T b) {price : P} {qty : Q} {isAsk : Bool}
    (hT : T isAsk ⟨price, qty⟩) :
    ∃ b', b.bufferLevel price qty isAsk = some b' ∧ Inv S T b' := by
  by_cases hfull : kMaxOrderbookLevels ≤ (b.pending isAsk).count
  · exact ⟨b, if_pos hfull, h⟩
  · obtain ⟨levels, hpush, hcount, hlist⟩ :=
      push_eq_some (⟨price, qty⟩ : Level P Q) (Nat.lt_of_not_le hfull)
    refine ⟨b.setPending levels isAsk, by simp [RithmicOrderBook.bufferLevel, hfull, hpush],
      h.setPending (by omega) ?_⟩
    rw [hlist, List.forall_mem_append, List.forall_mem_singleton]
    exact ⟨h.pending isAsk, hT⟩

variable [LinearOrder P] [LinearOrder Q] [Zero Q]

/-- `S` holds of an empty side and is kept by `ApplyLevel` with a level satisfying `T`. -/
structure Closed (S : Bool → List (Level P Q) → Prop) (T : Bool → Level P Q → Prop) : Prop where
  nil : ∀ isAsk, S isAsk []
  updates : ∀ {isAsk price qty levels levels'}, T isAsk ⟨price, qty⟩ → S isAsk levels →
    Updates isAsk price qty levels levels' → S isAsk levels'

theorem Inv.init [Zero P] (hc : Closed S T) : Inv S T init where
  count_le isAsk := by cases isAsk <;> exact Nat.zero_le _
  pending_le isAsk := by cases isAsk <;> exact Nat.zero_le _
  side isAsk := by cases isAsk <;> exact hc.nil _
  pending isAsk := by cases isAsk <;> exact List.forall_mem_nil _

theorem Inv.clear (hc : Closed S T) (b : RithmicOrderBook P Q) : Inv S T b.clear where
  count_le isAsk := by cases isAsk <;> exact Nat.zero_le _
  pending_le isAsk := by cases isAsk <;> exact Nat.zero_le _
  side isAsk := by cases isAsk <;> exact hc.nil _
  pending isAsk := by cases isAsk <;> exact List.forall_mem_nil _

omit [LinearOrder P] in
theorem Inv.applyImage (h : Inv S T b) (sc : SizeCast Q) {prices : Nat → P}
    {sizes : Nat → Int64} {count : Int} {isAsk : Bool}
    (hS : S isAsk ((imageLevels sc prices sizes 0 count.toNat).take kMaxOrderbookLevels)) :
    ∃ b', b.applyImage sc prices sizes count isAsk = some b' ∧ Inv S T b' := by
  obtain ⟨levels, himage, hle, hlist⟩ := applyImage_eq_some sc b prices sizes count isAsk
  exact ⟨b.setSide levels isAsk, himage, h.setSide hle (hlist ▸ hS)⟩

theorem Inv.applyLevel (hc : Closed S T) (h : Inv S T b) {price : P} {qty : Q} {isAsk : Bool}
    (hT : T isAsk ⟨price, qty⟩) :
    ∃ b', b.applyLevel price qty isAsk = some b' ∧ Inv S T b' := by
  obtain ⟨levels, hside, hle, hup⟩ := applySide_eq_some isAsk price qty (h.count_le isAsk)
  exact ⟨b.setSide levels isAsk, applyLevel_eq_some.mpr ⟨levels, hside, rfl⟩,
    h.setSide hle (hc.updates hT (h.side isAsk) hup)⟩

theorem Inv.applyAll (hc : Closed S T) {levels : List (Bool × Level P Q)} (h : Inv S T b)
    (hT : ∀ l ∈ levels, T l.1 l.2) : ∃ b', b.applyAll levels = some b' ∧ Inv S T b' := by
  induction levels generalizing b with
  | nil => exact ⟨b, rfl, h⟩
  | cons l levels ih =>
    rw [List.forall_mem_cons] at hT
    have hl : T l.1 ⟨l.2.price, l.2.quantity⟩ := hT.1
    obtain ⟨u, hu, hInv⟩ := h.applyLevel hc hl
    obtain ⟨b', hb', hInv'⟩ := ih hInv hT.2
    exact ⟨b', by rw [applyAll_cons, hu]; exact hb', hInv'⟩

theorem Inv.commitBatch (hc : Closed S T) (h : Inv S T b) :
    ∃ b', b.commitBatch = some b' ∧ Inv S T b' := by
  obtain ⟨u, hu, hInv⟩ := h.applyAll hc h.batch
  exact ⟨u.cancelBatch, by rw [commitBatch_eq h.pending_le, hu]; rfl, hInv.dropPending false⟩

/-! ## Any sequence of operations -/

inductive Op (P Q : Type) where
  | applyImage (prices : Nat → P) (sizes : Nat → Int64) (count : Int) (isAsk : Bool)
  | applyLevel (price : P) (qty : Q) (isAsk : Bool)
  | beginBatch
  | bufferLevel (price : P) (qty : Q) (isAsk : Bool)
  | commitBatch
  | cancelBatch
  | clear

def machine [Zero P] (sc : SizeCast Q) : Machine (RithmicOrderBook P Q) (Op P Q) where
  init := init
  step b
    | .applyImage prices sizes count isAsk => b.applyImage sc prices sizes count isAsk
    | .applyLevel price qty isAsk => b.applyLevel price qty isAsk
    | .beginBatch => some b.beginBatch
    | .bufferLevel price qty isAsk => b.bufferLevel price qty isAsk
    | .commitBatch => b.commitBatch
    | .cancelBatch => some b.cancelBatch
    | .clear => some b.clear

/-- The arrays of an image are sorted as the exchange delivers them: bids strictly descending, asks
strictly ascending. -/
def Op.Delivered : Op P Q → Prop
  | .applyImage prices _ count isAsk =>
    ∀ i j : Nat, i < j → (j : Int) < count → Before isAsk (prices i) (prices j)
  | _ => True

/-- The levels of a side stand in the order of the side, with positive quantities. -/
def SideOk (isAsk : Bool) (levels : List (Level P Q)) : Prop :=
  levels.Pairwise (fun l r => Before isAsk l.price r.price) ∧ ∀ l ∈ levels, 0 < l.quantity

/-- The representation invariant. -/
structure WellFormed (b : RithmicOrderBook P Q) : Prop where
  bids_descending : b.bids.toList.Pairwise fun l r => r.price < l.price
  asks_ascending : b.asks.toList.Pairwise fun l r => l.price < r.price
  bid_quantity_pos : ∀ l ∈ b.bids.toList, 0 < l.quantity
  ask_quantity_pos : ∀ l ∈ b.asks.toList, 0 < l.quantity
  bid_count_le : b.bids.count ≤ kMaxOrderbookLevels
  ask_count_le : b.asks.count ≤ kMaxOrderbookLevels
  pending_bid_count_le : b.pendingBids.count ≤ kMaxOrderbookLevels
  pending_ask_count_le : b.pendingAsks.count ≤ kMaxOrderbookLevels

/-- The order of a side is kept. -/
theorem Updates.sorted {isAsk : Bool} {price : P} {qty : Q} {levels levels' : List (Level P Q)}
    (hup : Updates isAsk price qty levels levels')
    (h : levels.Pairwise fun l r => Before isAsk l.price r.price) :
    levels'.Pairwise fun l r => Before isAsk l.price r.price := by
  cases hup with
  | replace _ _ =>
    -- the prices of the side are those of before
    simpa only [List.pairwise_append, List.pairwise_cons, List.mem_cons, forall_eq_or_imp] using h
  | @delete front _ _ _ _ => exact h.sublist ((List.sublist_cons_self _ _).append_left front)
  | ignore _ _ => exact h
  | @insert front back hne _ hbefore hafter =>
    rw [List.pairwise_append] at h
    obtain ⟨hfront, hback, hcross⟩ := h
    -- the new level precedes the first one behind it, hence all of them
    have hnew : ∀ r ∈ back, Before isAsk price r.price := by
      cases back with
      | nil => exact List.forall_mem_nil _
      | cons first rest =>
        have hfirst := Before.of_not (hafter first rfl) (hne first (by simp))
        refine List.forall_mem_cons.mpr ⟨hfirst, fun r hr => ?_⟩
        exact hfirst.trans (List.rel_of_pairwise_cons hback hr)
    refine List.pairwise_append.mpr ⟨hfront, List.pairwise_cons.mpr ⟨hnew, hback⟩, ?_⟩
    intro l hl
    exact List.forall_mem_cons.mpr ⟨hbefore l hl, hcross l hl⟩

theorem SideOk.updates {isAsk : Bool} {price : P} {qty : Q} {levels levels' : List (Level P Q)}
    (h : SideOk isAsk levels) (hup : Updates isAsk price qty levels levels') :
    SideOk isAsk levels' := by
  refine ⟨hup.sorted h.1, ?_⟩
  have hpos := h.2
  cases hup with
  | replace _ hq =>
    simp only [List.forall_mem_append, List.forall_mem_cons] at hpos ⊢
    exact ⟨hpos.1, hq, hpos.2.2⟩
  | delete _ _ =>
    simp only [List.forall_mem_append, List.forall_mem_cons] at hpos ⊢
    exact ⟨hpos.1, hpos.2.2⟩
  | ignore _ _ => exact hpos
  | insert _ hq _ _ =>
    simp only [List.forall_mem_append, List.forall_mem_cons] at hpos ⊢
    exact ⟨hpos.1, hq, hpos.2⟩

theorem sideOk_closed : Closed (P := P) (Q := Q) SideOk fun _ _ => True where
  nil _ := ⟨.nil, List.forall_mem_nil _⟩
  updates _ h hup := h.updates hup

theorem sideOk_imageLevels (sc : SizeCast Q) {prices : Nat → P} {count : Int} {isAsk : Bool}
    (h : ∀ i j : Nat, i < j → (j : Int) < count → Before isAsk (prices i) (prices j))
    (sizes : Nat → Int64) (n : Nat) :
    SideOk isAsk ((imageLevels sc prices sizes 0 count.toNat).take n) := by
  constructor
  · refine List.Pairwise.sublist (List.take_sublist _ _) ?_
    rw [imageLevels, List.pairwise_map]
    refine List.Pairwise.sublist List.filter_sublist ?_
    rw [← List.range_eq_range']
    refine List.pairwise_lt_range.imp_of_mem fun {i j} _ hj hij => h i j hij ?_
    exact Int.lt_toNat.mp (List.mem_range.mp hj)
  · intro l hl
    obtain ⟨i, hi, rfl⟩ := List.mem_map.mp (List.mem_of_mem_take hl)
    exact sc.cast_pos (of_decide_eq_true (List.mem_filter.mp hi).2)

theorem Inv.wellFormed {T : Bool → Level P Q → Prop} (h : Inv SideOk T b) : WellFormed b where
  bids_descending := (h.side false).1
  asks_ascending := (h.side true).1
  bid_quantity_pos := (h.side false).2
  ask_quantity_pos := (h.side true).2
  bid_count_le := h.count_le false
  ask_count_le := h.count_le true
  pending_bid_count_le := h.pending_le false
  pending_ask_count_le := h.pending_le true

theorem step_sideOk [Zero P] (sc : SizeCast Q) (b : RithmicOrderBook P Q) (op : Op P Q)
    (h : Inv SideOk (fun _ _ => True) b) (hop : op.Delivered) :
    ∃ b', (machine sc).step b op = some b' ∧ Inv SideOk (fun _ _ => True) b' := by
  cases op with
  | applyImage prices sizes count isAsk => exact h.applyImage sc (sideOk_imageLevels sc hop sizes _)
  | applyLevel price qty isAsk => exact h.applyLevel sideOk_closed trivial
  | beginBatch => exact ⟨_, rfl, h.dropPending true⟩
  | bufferLevel price qty isAsk => exact h.bufferLevel trivial
  | commitBatch => exact h.commitBatch sideOk_closed
  | cancelBatch => exact ⟨_, rfl, h.dropPending false⟩
  | clear => exact ⟨_, rfl, Inv.clear sideOk_closed b⟩

/-- Whatever is done to a book, in any order: no operation touches a slot outside its arrays, and
the representation invariant holds. -/
theorem exec_wellFormed [Zero P] (sc : SizeCast Q) (ops : List (Op P Q))
    (hops : ∀ op ∈ ops, op.Delivered) :
    ∃ b, (machine sc).exec (machine sc).init ops = some b ∧ b.WellFormed := by
  obtain ⟨b, hb, hInv⟩ := (machine sc).exec_total (step_sideOk sc) (Inv.init sideOk_closed)
    ((machine sc).along_of_forall hops)
  exact ⟨b, hb, hInv.wellFormed⟩

/-- Sizes as the integers they are. -/
def intCast : SizeCast Int where
  cast := Int64.toInt
  cast_pos := Int64.lt_iff_toInt_lt.mp

/-- An image of three asks, the second of them empty, then a batch on both sides. -/
def mixedOps : List (Op Int Int) :=
  [.applyImage (fun i => 10 + i) (fun i => if i = 1 then 0 else 5) 3 true, .beginBatch,
    .bufferLevel 11 7 true, .bufferLevel 9 4 false, .commitBatch, .applyLevel 10 0 true]

theorem exec_mixedOps_wellFormed :
    ∃ b, (machine intCast).exec (machine intCast).init mixedOps = some b ∧ b.WellFormed := by
  refine exec_wellFormed intCast mixedOps ?_
  simp only [mixedOps, List.forall_mem_cons, Op.Delivered, Before]
  exact ⟨fun i j hij _ => by omega, trivial, trivial, trivial, trivial, trivial,
    List.forall_mem_nil _⟩

end RithmicOrderBook
end Sqc
