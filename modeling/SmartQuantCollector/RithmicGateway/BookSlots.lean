import Mathlib.Data.Set.Card
import SmartQuantCollector.RithmicGateway.MyCallbacks

/-! # The books of different instruments

`FindBook` gives a channel a slot of `m_books` when it is first met. Over every sequence of
callbacks a channel keeps its slot, no two channels share one, and a callback changes only the book
of the channel that its exchange and ticker resolve to (`books_separate`). -/

namespace Sqc

open Concurrency RithmicOrderBook

namespace MyCallbacks

variable {P Q : Type}

structure SlotsOk (s : MyCallbacks P Q) : Prop where
  slot_lt : ∀ ch idx, s.channelToBook ch = some idx → idx.toNat < s.bookCount
  slot_inj : ∀ ch ch' idx, s.channelToBook ch = some idx → s.channelToBook ch' = some idx → ch = ch'
  channelId_eq : ∀ ch idx, s.channelToBook ch = some idx → (s.books idx).channelId = ch
  encard_eq : {ch | (s.channelToBook ch).isSome = true}.encard = s.bookCount
  count_le : s.bookCount ≤ kMaxBooks

/-- What a callback may change. -/
structure CallFrame (map : RithmicChannelMap) (call : GatewayCall P) (s t : MyCallbacks P Q) :
    Prop where
  kept : ∀ ch idx, s.channelToBook ch = some idx → t.channelToBook ch = some idx
  mapped : ∀ ch, t.channelToBook ch ≠ s.channelToBook ch → ch = call.header.channelId map
  books : ∀ idx, t.books idx ≠ s.books idx →
    t.channelToBook (call.header.channelId map) = some idx
  depths : ∃ new, t.depthQueue = s.depthQueue ++ new ∧
    ∀ e ∈ new, e.channelId = call.header.channelId map
  /-- There is no channel, or no slot for it. -/
  nothing : ∀ header c, call = .book header c →
    header.channelId map = RithmicChannelMap.kNotFound ∨
      s.channelToBook (header.channelId map) = none ∧ kMaxBooks ≤ s.bookCount → t = s

/-! ## `FindBook` -/

variable {map : RithmicChannelMap} {s t : MyCallbacks P Q} {header : CallHeader}

/-- How `FindBook` may end. -/
inductive Found (map : RithmicChannelMap) (s : MyCallbacks P Q) (header : CallHeader) :
    MyCallbacks P Q → Option UInt8 → Prop
  | unresolved : header.channelId map = RithmicChannelMap.kNotFound → Found map s header s none
  | known {idx : UInt8} : header.channelId map ≠ RithmicChannelMap.kNotFound →
    s.channelToBook (header.channelId map) = some idx → Found map s header s (some idx)
  | full : s.channelToBook (header.channelId map) = none → kMaxBooks ≤ s.bookCount →
    Found map s header s none
  | created {symbol : Nat → UInt8} : header.channelId map ≠ RithmicChannelMap.kNotFound →
    s.channelToBook (header.channelId map) = none → s.bookCount < kMaxBooks →
    header.ticker.data = some symbol →
    Found map s header (s.addBook (header.channelId map) symbol) (some (UInt8.ofNat s.bookCount))

theorem found_of_findBook {idx : Option UInt8} (h : findBook map s header = some (t, idx)) :
    Found map s header t idx := by
  simp only [findBook] at h
  split at h
  next hch => cases h; exact .unresolved hch
  next hch =>
    split at h
    next idx hidx => cases h; exact .known hch hidx
    next hnone =>
      split at h
      next hfull => cases h; exact .full hnone hfull
      next hfull =>
        obtain ⟨symbol, hsymbol, h⟩ := Option.map_eq_some_iff.mp h
        cases h
        exact .created hch hnone (Nat.lt_of_not_le hfull) hsymbol

theorem toNat_ofNat_of_lt (h : s.bookCount < kMaxBooks) :
    (UInt8.ofNat s.bookCount).toNat = s.bookCount :=
  UInt8.toNat_ofNat_of_lt' (h.trans (by decide))

/-- A new book is the only one of its channel and of its slot. -/
theorem SlotsOk.addBook (h : SlotsOk s) {ch : UInt32} (hnone : s.channelToBook ch = none)
    (hlt : s.bookCount < kMaxBooks) (symbol : Nat → UInt8) : SlotsOk (s.addBook ch symbol) := by
  have hidx := toNat_ofNat_of_lt hlt
  have hcases : ∀ ch' idx, (s.addBook ch symbol).channelToBook ch' = some idx →
      ch' = ch ∧ idx = UInt8.ofNat s.bookCount ∨
        ch' ≠ ch ∧ s.channelToBook ch' = some idx ∧ idx ≠ UInt8.ofNat s.bookCount := by
    intro ch' idx hmap
    change Function.update s.channelToBook ch _ ch' = some idx at hmap
    rcases eq_or_ne ch' ch with rfl | hne
    · rw [Function.update_self] at hmap
      exact .inl ⟨rfl, (Option.some.inj hmap).symm⟩
    · rw [Function.update_of_ne hne] at hmap
      refine .inr ⟨hne, hmap, ?_⟩
      rintro rfl
      exact absurd (h.slot_lt ch' _ hmap) (by omega)
  refine ⟨fun ch' idx hmap => ?_, fun ch₁ ch₂ idx h₁ h₂ => ?_, fun ch' idx hmap => ?_, ?_, hlt⟩
  · show idx.toNat < s.bookCount + 1
    rcases hcases ch' idx hmap with ⟨-, rfl⟩ | ⟨-, hold, -⟩
    · omega
    · exact Nat.lt_succ_of_lt (h.slot_lt ch' idx hold)
  · rcases hcases ch₁ idx h₁ with ⟨rfl, hnew⟩ | ⟨-, hold, hne⟩
    · rcases hcases ch₂ idx h₂ with ⟨rfl, -⟩ | ⟨-, -, hne⟩
      · rfl
      · exact absurd hnew hne
    · rcases hcases ch₂ idx h₂ with ⟨-, hnew⟩ | ⟨-, hold', -⟩
      · exact absurd hnew hne
      · exact h.slot_inj ch₁ ch₂ idx hold hold'
  · show (Function.update s.books _ _ idx).channelId = ch'
    rcases hcases ch' idx hmap with ⟨rfl, rfl⟩ | ⟨-, hold, hne⟩
    · rw [Function.update_self]
      rfl
    · rw [Function.update_of_ne hne]
      exact h.channelId_eq ch' idx hold
  · have hset : {ch' | ((s.addBook ch symbol).channelToBook ch').isSome = true} =
        insert ch {ch' | (s.channelToBook ch').isSome = true} := by
      ext ch'
      rw [Set.mem_insert_iff, Set.mem_ofPred_eq, Set.mem_ofPred_eq]
      change (Function.update s.channelToBook ch _ ch').isSome = true ↔ _
      rcases eq_or_ne ch' ch with rfl | hne
      · rw [Function.update_self]
        exact iff_of_true rfl (.inl rfl)
      · rw [Function.update_of_ne hne]
        exact (or_iff_right hne).symm
    have hnew : ch ∉ {ch' | (s.channelToBook ch').isSome = true} := by
      rw [Set.mem_ofPred_eq, hnone]
      exact Bool.false_ne_true
    rw [hset, Set.encard_insert_of_notMem hnew, h.encard_eq]
    rfl

theorem Found.slotsOk {idx : Option UInt8} (h : Found map s header t idx) (hok : SlotsOk s) :
    SlotsOk t := by
  cases h with
  | unresolved _ | known _ _ | full _ _ => exact hok
  | created _ hnone hlt _ => exact hok.addBook hnone hlt _

/-- The slot that was found is that of the channel. -/
theorem Found.slot {idx : UInt8} (h : Found map s header t (some idx)) :
    t.channelToBook (header.channelId map) = some idx := by
  cases h with
  | known _ hidx => exact hidx
  | created _ _ _ _ => exact Function.update_self ..

theorem Found.kept {idx : Option UInt8} (h : Found map s header t idx) {ch : UInt32} {idx' : UInt8}
    (hmap : s.channelToBook ch = some idx') : t.channelToBook ch = some idx' := by
  cases h with
  | unresolved _ | known _ _ | full _ _ => exact hmap
  | created _ hnone _ _ =>
    refine (Function.update_of_ne ?_ ..).trans hmap
    rintro rfl
    cases hnone.symm.trans hmap

theorem Found.mapped {idx : Option UInt8} (h : Found map s header t idx) {ch : UInt32}
    (hne : t.channelToBook ch ≠ s.channelToBook ch) : ch = header.channelId map := by
  cases h with
  | unresolved _ | known _ _ | full _ _ => exact absurd rfl hne
  | created _ _ _ _ =>
    by_contra hch
    exact hne (Function.update_of_ne hch ..)

theorem Found.books {idx : Option UInt8} (h : Found map s header t idx) {idx' : UInt8}
    (hne : t.books idx' ≠ s.books idx') : idx = some idx' := by
  cases h with
  | unresolved _ | known _ _ | full _ _ => exact absurd rfl hne
  | created _ _ _ _ =>
    by_contra hidx
    exact hne (Function.update_of_ne (fun heq => hidx (congrArg some heq.symm)) ..)

theorem Found.depthQueue_eq {idx : Option UInt8} (h : Found map s header t idx) :
    t.depthQueue = s.depthQueue := by
  cases h with
  | unresolved _ | known _ _ | full _ _ | created _ _ _ _ => rfl

theorem Found.eq_of_nothing {idx : Option UInt8} (h : Found map s header t idx)
    (hnothing : header.channelId map = RithmicChannelMap.kNotFound ∨
      s.channelToBook (header.channelId map) = none ∧ kMaxBooks ≤ s.bookCount) :
    t = s ∧ idx = none := by
  cases h with
  | unresolved _ | full _ _ => exact ⟨rfl, rfl⟩
  | known hch hidx =>
    rcases hnothing with heq | ⟨hnone, -⟩
    · exact absurd heq hch
    · cases hnone.symm.trans hidx
  | created hch _ hlt _ =>
    rcases hnothing with heq | ⟨-, hfull⟩
    · exact absurd heq hch
    · exact absurd hfull (Nat.not_le.mpr hlt)

/-! ## Under the lock -/

/-- What is done to a book that was found: its identity stays, and only it is published. -/
structure Worked (idx : UInt8) (s t : MyCallbacks P Q) : Prop where
  channelToBook : t.channelToBook = s.channelToBook
  bookCount : t.bookCount = s.bookCount
  books : ∀ idx', idx' ≠ idx → t.books idx' = s.books idx'
  channelId : (t.books idx).channelId = (s.books idx).channelId
  symbol : (t.books idx).symbol = (s.books idx).symbol
  depths : ∃ new, t.depthQueue = s.depthQueue ++ new ∧
    ∀ e ∈ new, e = (t.books idx).snapshotTo e.exchangeTimestamp e.localDiff
  ticks : t.tickQueue = s.tickQueue
  bookTickers : t.bookTickerQueue = s.bookTickerQueue

theorem pushSnapshot_cases (s : MyCallbacks P Q) (book : BookSlot P Q) (header : CallHeader) :
    s.pushSnapshot book header = s ∨ ∃ ts, s.pushSnapshot book header =
      { s with depthQueue := s.depthQueue ++ [book.snapshotTo ts header.steadyNs] } := by
  rw [pushSnapshot]
  cases resolveRithmicExchangeTimestamp header.timestamp book.levels.bids.count
    book.levels.asks.count header.systemMicros with
  | none => exact .inl rfl
  | some ts => exact .inr ⟨ts, rfl⟩

theorem worked_setLevels (s : MyCallbacks P Q) (idx : UInt8) (levels : RithmicOrderBook P Q) :
    Worked idx s (s.setLevels idx levels) := by
  have hself : (s.setLevels idx levels).books idx = { s.books idx with levels := levels } :=
    Function.update_self ..
  refine ⟨rfl, rfl, fun idx' hne => Function.update_of_ne hne .., ?_, ?_, ⟨[], ?_⟩, rfl, rfl⟩
  · rw [hself]
  · rw [hself]
  · exact ⟨(List.append_nil _).symm, List.forall_mem_nil _⟩

theorem Worked.pushSnapshot {idx : UInt8} (h : Worked idx s t)
    (hdepth : t.depthQueue = s.depthQueue) (header : CallHeader) :
    Worked idx s (t.pushSnapshot (t.books idx) header) := by
  rcases pushSnapshot_cases t (t.books idx) header with hsame | ⟨ts, hpush⟩
  · rw [hsame]
    exact h
  · rw [hpush]
    refine ⟨h.channelToBook, h.bookCount, h.books, h.channelId, h.symbol,
      ⟨[(t.books idx).snapshotTo ts header.steadyNs], ?_, ?_⟩, h.ticks, h.bookTickers⟩
    · rw [hdepth]
    · rw [List.forall_mem_singleton]
      rfl

variable [LinearOrder P] [LinearOrder Q] [Zero Q] {sc : SizeCast Q} {maxDepthLevels : UInt32}
  {c : Callback P}

theorem worked_of_onBook {idx : UInt8} (h : onBook sc maxDepthLevels s idx header c = some t) :
    Worked idx s t := by
  obtain ⟨levels, -, h⟩ := Option.bind_eq_some_iff.mp h
  have hworked := worked_setLevels s idx levels
  cases h
  split
  next => exact hworked.pushSnapshot rfl header
  next => exact hworked

omit [LinearOrder P] [LinearOrder Q] [Zero Q] in
theorem Worked.slotsOk {idx : UInt8} (h : Worked idx s t) (hok : SlotsOk s) : SlotsOk t where
  slot_lt ch idx' hmap := by
    rw [h.channelToBook] at hmap
    exact (hok.slot_lt ch idx' hmap).trans_eq h.bookCount.symm
  slot_inj := h.channelToBook ▸ hok.slot_inj
  channelId_eq ch idx' hmap := by
    rw [h.channelToBook] at hmap
    rw [← hok.channelId_eq ch idx' hmap]
    rcases eq_or_ne idx' idx with rfl | hne
    · exact h.channelId
    · rw [h.books idx' hne]
  encard_eq := by rw [h.channelToBook, h.bookCount, hok.encard_eq]
  count_le := h.bookCount.trans_le hok.count_le

/-! ## Callbacks -/

/-- A book callback finds no book, or works on the one it finds. -/
theorem bookCall_cases (h : bookCall map sc maxDepthLevels s header c = some t) :
    Found map s header t none ∨ ∃ u idx, Found map s header u (some idx) ∧ Worked idx u t := by
  obtain ⟨⟨u, idx⟩, hfind, h⟩ := Option.bind_eq_some_iff.mp h
  have hfound := found_of_findBook hfind
  cases idx with
  | none =>
    cases h
    exact .inl hfound
  | some idx => exact .inr ⟨u, idx, hfound, worked_of_onBook h⟩

/-- The two callbacks without a book. -/
theorem step_cases [Zero P] {call : GatewayCall P}
    (h : (machine map sc maxDepthLevels).step s call = some t) :
    (∃ header c, call = .book header c ∧ bookCall map sc maxDepthLevels s header c = some t) ∨
      (∀ header c, call ≠ .book header c) ∧ t.books = s.books ∧
        t.channelToBook = s.channelToBook ∧ t.bookCount = s.bookCount ∧
        t.depthQueue = s.depthQueue := by
  cases call with
  | book header c => exact .inl ⟨header, c, rfl, h⟩
  | tradePrint header info =>
    refine .inr ⟨by simp, ?_⟩
    cases h
    rw [tradePrint]
    split <;> exact ⟨rfl, rfl, rfl, rfl⟩
  | bestBidAskQuote header bid ask =>
    refine .inr ⟨by simp, ?_⟩
    cases h
    rw [bestBidAskQuote]
    split <;> exact ⟨rfl, rfl, rfl, rfl⟩

theorem SlotsOk.step [Zero P] {call : GatewayCall P} (h : SlotsOk s)
    (hs : (machine map sc maxDepthLevels).step s call = some t) : SlotsOk t := by
  rcases step_cases hs with ⟨header, c, rfl, hcall⟩ | ⟨-, hbooks, hmap, hcount, -⟩
  · rcases bookCall_cases hcall with hfound | ⟨u, idx, hfound, hworked⟩
    · exact hfound.slotsOk h
    · exact hworked.slotsOk (hfound.slotsOk h)
  · exact ⟨by rw [hmap, hcount]; exact h.slot_lt, hmap ▸ h.slot_inj,
      by rw [hmap, hbooks]; exact h.channelId_eq, by rw [hmap, hcount]; exact h.encard_eq,
      hcount.trans_le h.count_le⟩

omit [LinearOrder P] [LinearOrder Q] in
theorem slotsOk_init [Zero P] : SlotsOk (init : MyCallbacks P Q) where
  slot_lt _ _ h := by cases h
  slot_inj _ _ _ h := by cases h
  channelId_eq _ _ h := by cases h
  encard_eq := by
    have hempty : {ch | ((init : MyCallbacks P Q).channelToBook ch).isSome = true} = ∅ :=
      Set.eq_empty_of_forall_notMem fun _ h => Bool.false_ne_true h
    rw [hempty, Set.encard_empty]
    rfl
  count_le := Nat.zero_le _

theorem callFrame_of_step [Zero P] {call : GatewayCall P} (h : SlotsOk s)
    (hs : (machine map sc maxDepthLevels).step s call = some t) : CallFrame map call s t := by
  rcases step_cases hs with ⟨header, c, rfl, hcall⟩ | ⟨hnot, hbooks, hmap, -, hdepth⟩
  · rcases bookCall_cases hcall with hfound | ⟨u, idx, hfound, hworked⟩
    · refine ⟨fun _ _ => hfound.kept, fun _ => hfound.mapped, fun idx' hne => ?_,
        ⟨[], ?_, List.forall_mem_nil _⟩, ?_⟩
      · cases hfound.books hne
      · rw [hfound.depthQueue_eq, List.append_nil]
      · rintro header' c' heq hnothing
        cases heq
        exact (hfound.eq_of_nothing hnothing).1
    · have hslot : t.channelToBook (header.channelId map) = some idx := by
        rw [hworked.channelToBook]
        exact hfound.slot
      refine ⟨?_, ?_, fun idx' hne => ?_, ?_, ?_⟩
      · rw [hworked.channelToBook]
        exact fun _ _ => hfound.kept
      · rw [hworked.channelToBook]
        exact fun _ => hfound.mapped
      · show t.channelToBook (header.channelId map) = some idx'
        by_contra hidx
        have hother : idx' ≠ idx := fun heq => hidx (heq ▸ hslot)
        rw [hworked.books idx' hother] at hne
        exact hother (Option.some.inj (hfound.books hne)).symm
      · obtain ⟨new, hnew, hsnapshot⟩ := hworked.depths
        refine ⟨new, by rw [hnew, hfound.depthQueue_eq], fun e he => ?_⟩
        rw [hsnapshot e he]
        exact (hworked.slotsOk (hfound.slotsOk h)).channelId_eq _ idx hslot
      · rintro header' c' heq hnothing
        cases heq
        cases (hfound.eq_of_nothing hnothing).2
  · refine ⟨fun _ _ hidx => hmap ▸ hidx, fun _ hne => absurd (congrFun hmap _) hne,
      fun _ hne => absurd (congrFun hbooks _) hne, ⟨[], ?_, List.forall_mem_nil _⟩, ?_⟩
    · rw [hdepth, List.append_nil]
    · intro header c heq
      exact absurd heq (hnot header c)

/-! ## Callbacks do not fail -/

/-- No book has more levels than its arrays. -/
def LevelsOk (s : MyCallbacks P Q) : Prop :=
  ∀ idx, Inv (fun _ _ => True) (fun _ _ => True) (s.books idx).levels

theorem closed_true : Closed (P := P) (Q := Q) (fun _ _ => True) (fun _ _ => True) where
  nil _ := trivial
  updates _ _ _ := trivial

omit [LinearOrder P] [LinearOrder Q] [Zero Q] in
/-- `FindBook` leaves the levels of all books. -/
theorem Found.levels_eq {idx : Option UInt8} (h : Found map s header t idx) (idx' : UInt8) :
    (t.books idx').levels = (s.books idx').levels := by
  cases h with
  | unresolved _ | known _ _ | full _ _ => rfl
  | created _ _ _ _ =>
    show (Function.update s.books _ _ idx').levels = _
    rcases eq_or_ne idx' (UInt8.ofNat s.bookCount) with rfl | hne
    · rw [Function.update_self]
      rfl
    · rw [Function.update_of_ne hne]

omit [LinearOrder P] [LinearOrder Q] [Zero Q] in
theorem Found.levelsOk {idx : Option UInt8} (h : Found map s header t idx) (hok : LevelsOk s) :
    LevelsOk t := by
  intro idx'
  rw [h.levels_eq]
  exact hok idx'

omit [LinearOrder P] [LinearOrder Q] [Zero Q] in
theorem LevelsOk.setLevels (h : LevelsOk s) (idx : UInt8) {levels : RithmicOrderBook P Q}
    (hlevels : Inv (fun _ _ => True) (fun _ _ => True) levels) :
    LevelsOk (s.setLevels idx levels) := by
  intro idx'
  show Inv _ _ (Function.update s.books idx _ idx').levels
  rcases eq_or_ne idx' idx with rfl | hne
  · rw [Function.update_self]
    exact hlevels
  · rw [Function.update_of_ne hne]
    exact h idx'

omit [LinearOrder P] [LinearOrder Q] [Zero Q] in
theorem LevelsOk.pushSnapshot (h : LevelsOk s) (book : BookSlot P Q) (header : CallHeader) :
    LevelsOk (s.pushSnapshot book header) := by
  rcases pushSnapshot_cases s book header with hsame | ⟨ts, hpush⟩
  · rw [hsame]
    exact h
  · rw [hpush]
    exact h

theorem onBook_total (h : LevelsOk s) (idx : UInt8) :
    ∃ t, onBook sc maxDepthLevels s idx header c = some t ∧ LevelsOk t := by
  have hcall : ∃ levels, callback sc maxDepthLevels (s.books idx).levels c = some levels ∧
      Inv (fun _ _ => True) (fun _ _ => True) levels :=
    (h idx).callback closed_true (fun _ _ _ => trivial) (fun _ _ _ => trivial)
  obtain ⟨levels, hlevels, hinv⟩ := hcall
  have hset := h.setLevels idx hinv
  refine ⟨_, congrArg (Option.bind · _) hlevels, ?_⟩
  split
  next => exact hset.pushSnapshot _ header
  next => exact hset

theorem bookCall_total (h : LevelsOk s) (hticker : header.sTicker.pData ≠ none) :
    ∃ t, bookCall map sc maxDepthLevels s header c = some t := by
  have hfind : ∃ r, findBook map s header = some r := by
    obtain ⟨data, hdata⟩ := Option.ne_none_iff_exists'.mp hticker
    have hsome : header.ticker.data = some data := by
      rw [CallHeader.ticker, toSv, hdata]
    simp only [findBook, hsome]
    repeat' split
    all_goals exact ⟨_, rfl⟩
  obtain ⟨⟨u, idx⟩, hfind⟩ := hfind
  have hlevels := (found_of_findBook hfind).levelsOk h
  rw [bookCall, hfind, Option.bind_some]
  cases idx with
  | none => exact ⟨u, rfl⟩
  | some idx =>
    obtain ⟨t, ht, -⟩ := onBook_total hlevels idx
    exact ⟨t, ht⟩

theorem LevelsOk.step [Zero P] {call : GatewayCall P} (h : LevelsOk s)
    (hs : (machine map sc maxDepthLevels).step s call = some t) : LevelsOk t := by
  rcases step_cases hs with ⟨header, c, rfl, hcall⟩ | ⟨-, hbooks, -⟩
  · obtain ⟨⟨u, idx⟩, hfind, hcall⟩ := Option.bind_eq_some_iff.mp hcall
    have hlevels := (found_of_findBook hfind).levelsOk h
    cases idx with
    | none =>
      cases hcall
      exact hlevels
    | some idx =>
      obtain ⟨t', ht', hok⟩ := onBook_total hlevels idx
      cases ht'.symm.trans hcall
      exact hok
  · intro idx
    rw [hbooks]
    exact h idx

/-! ## Runs -/

theorem exec_ok [Zero P] {calls : List (GatewayCall P)}
    (h : (machine map sc maxDepthLevels).exec (machine map sc maxDepthLevels).init calls =
      some s) : SlotsOk s ∧ LevelsOk s :=
  (machine map sc maxDepthLevels).exec_invariant (I := fun u => SlotsOk u ∧ LevelsOk u)
    (C := fun _ _ => True) (fun _ _ _ hu _ hv => ⟨hu.1.step hv, hu.2.step hv⟩)
    ⟨slotsOk_init, fun _ => Inv.init closed_true⟩ (Machine.along_true _) h

/-- Over every sequence of callbacks: channels and slots correspond, each channel keeps its slot, a
callback changes only the book of its own channel and publishes only under its id, and none fails
unless its ticker is a null pointer. -/
theorem books_separate [Zero P] (map : RithmicChannelMap) (sc : SizeCast Q)
    (maxDepthLevels : UInt32) (calls : List (GatewayCall P)) (s : MyCallbacks P Q)
    (hs : (machine map sc maxDepthLevels).exec (machine map sc maxDepthLevels).init calls =
      some s) :
    SlotsOk s ∧
      (∀ call t, (machine map sc maxDepthLevels).step s call = some t → CallFrame map call s t) ∧
      (∀ later t, (machine map sc maxDepthLevels).exec s later = some t →
        ∀ ch idx, s.channelToBook ch = some idx → t.channelToBook ch = some idx) ∧
      ∀ call : GatewayCall P, call.header.sTicker.pData ≠ none →
        ∃ t, (machine map sc maxDepthLevels).step s call = some t := by
  have hinv := exec_ok hs
  refine ⟨hinv.1, fun call t ht => callFrame_of_step hinv.1 ht, fun later t ht ch idx hmap => ?_,
    fun call hticker => ?_⟩
  · have hkept : SlotsOk t ∧ t.channelToBook ch = some idx :=
      (machine map sc maxDepthLevels).exec_invariant
        (I := fun u => SlotsOk u ∧ u.channelToBook ch = some idx)
        (fun u call v hu _ hv => ⟨hu.1.step hv, (callFrame_of_step hu.1 hv).kept ch idx hu.2⟩)
        ⟨hinv.1, hmap⟩ (Machine.along_true _) ht
    exact hkept.2
  · cases call with
    | book header c => exact bookCall_total hinv.2 hticker
    | tradePrint header info => exact ⟨_, rfl⟩
    | bestBidAskQuote header bid ask => exact ⟨_, rfl⟩

/-- A text with a zero byte behind it. -/
def zeroTerminated (s : String) : NCharcb := ⟨some (s.toUTF8.toList.getD · 0), s.utf8ByteSize⟩

/-- A callback for a ticker of one exchange. -/
def exampleHeader (ticker : NCharcb) : CallHeader :=
  ⟨zeroTerminated "CME", ticker, 1700000000, 0, 0, 0⟩

def twoChannels : RithmicChannelMap :=
  (RithmicChannelMap.register {} "CME" "ESZ5" (computeChannelId "CME" "futures" "ESZ5")).register
    "CME" "NQZ5" (computeChannelId "CME" "futures" "NQZ5")

/-- Quotes for two instruments, and one for an instrument that is not registered. -/
def twoInstruments : List (GatewayCall Int) :=
  ["ESZ5", "NQZ5", "CLZ5", "ESZ5"].map fun ticker =>
    .book (exampleHeader (zeroTerminated ticker)) (.quote (.askQuote ⟨1, true, 10, true, 5⟩))

theorem twoInstruments_separate :
    ∃ s, (machine twoChannels intCast 10).exec (machine twoChannels intCast 10).init
        twoInstruments = some s ∧ s.bookCount = 2 ∧ s.depthQueue.length = 3 ∧ SlotsOk s := by
  have hrun : ((machine twoChannels intCast 10).exec (machine twoChannels intCast 10).init
      twoInstruments).map (fun s => (s.bookCount, s.depthQueue.length)) = some (2, 3) := by
    decide +kernel
  obtain ⟨s, hs, hfigures⟩ := Option.map_eq_some_iff.mp hrun
  obtain ⟨hcount, hlength⟩ := Prod.mk.inj hfigures
  exact ⟨s, hs, hcount, hlength, (books_separate twoChannels intCast 10 twoInstruments s hs).1⟩

end MyCallbacks
end Sqc
