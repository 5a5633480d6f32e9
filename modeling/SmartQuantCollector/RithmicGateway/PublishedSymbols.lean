import Mathlib.Data.List.DropRight
import SmartQuantCollector.RithmicGateway.BookSlots

/-! # The symbols of published events

`TradePrint` and `BestBidAskQuote` copy the symbol of an event from the trimmed ticker, whose length
is known. A book gets its symbol from `Init`, which takes the ticker for a C string. The two agree
when the byte behind the trimmed ticker is zero (`StringView.Terminated`); otherwise depth events
carry what happens to stand in memory (`symbol_beyond_ticker`). -/

namespace Sqc

open Concurrency RithmicOrderBook

/-! ## Texts -/

/-- The characters that were given. -/
def NCharcb.text (s : NCharcb) : List UInt8 :=
  match s.pData with
  | none => []
  | some data => (List.range s.iDataLen).map data

/-- The first eleven characters of a text without its trailing blanks. -/
def symbolSpec (text : List UInt8) : SymbolChars :=
  Vector.ofFn fun i =>
    if i.val < 11 then (text.rdropWhile (· = ' '.toUInt8)).getD i 0 else 0

theorem map_range_trimmedSize (data : Nat → UInt8) (n : Nat) :
    (List.range (trimmedSize data n)).map data =
      ((List.range n).map data).rdropWhile (· = ' '.toUInt8) := by
  induction n with
  | zero => rfl
  | succ n ih =>
    rw [List.range_succ, List.map_append, List.map_singleton, trimmedSize]
    split
    next h => rw [List.rdropWhile_concat_pos _ _ _ (by simpa using h), ih]
    next h =>
      rw [List.rdropWhile_concat_neg _ _ _ (by simpa using h), List.range_succ, List.map_append,
        List.map_singleton]

theorem bytes_toSv (s : NCharcb) : (toSv s).bytes = s.text.rdropWhile (· = ' '.toUInt8) := by
  rw [toSv, NCharcb.text]
  cases s.pData with
  | none => rfl
  | some data => exact map_range_trimmedSize data s.iDataLen

theorem copySymbol_toSv (s : NCharcb) : MyCallbacks.copySymbol (toSv s) = symbolSpec s.text := by
  rw [MyCallbacks.copySymbol, bytes_toSv, symbolSpec]

/-! ## C strings -/

/-- `Init` stops at the end of the text, or after eleven characters of it. -/
def Terminated (data : Nat → UInt8) (size : Nat) : Prop :=
  (∀ i ∈ List.range (min size 11), data i ≠ 0) ∧ (size < 11 → data size = 0)

instance (data : Nat → UInt8) (size : Nat) : Decidable (Terminated data size) :=
  inferInstanceAs (Decidable (_ ∧ _))

def StringView.Terminated (v : StringView) : Prop :=
  match v.data with
  | none => True
  | some data => Sqc.Terminated data v.size

instance (v : StringView) : Decidable v.Terminated :=
  match h : v.data with
  | none => isTrue (by simp only [StringView.Terminated, h])
  | some data => decidable_of_iff (Terminated data v.size) (by simp only [StringView.Terminated, h])

theorem symbolLength_eq {src : Nat → UInt8} {n : Nat} (hn : n ≤ 11) (hbefore : ∀ i < n, src i ≠ 0)
    (hat : n < 11 → src n = 0) : symbolLength src = n := by
  have hsplit : List.range 11 = List.range n ++ List.range' n (11 - n) := by
    have happend := @List.range'_append_1 0 n (11 - n)
    rw [Nat.zero_add, Nat.add_sub_cancel' hn] at happend
    rw [List.range_eq_range', List.range_eq_range', happend]
  rw [symbolLength, hsplit, List.takeWhile_append_of_pos]
  · rcases hn.lt_or_eq with hlt | rfl
    · have hcons : List.range' n (11 - n) = n :: List.range' (n + 1) (11 - n - 1) := by
        conv_lhs => rw [show 11 - n = 11 - n - 1 + 1 by omega]
        exact List.range'_succ
      rw [hcons, List.takeWhile_cons_of_neg (by simp [hat hlt]), List.append_nil, List.length_range]
    · rfl
  · intro i hi
    exact decide_eq_true (hbefore i (List.mem_range.mp hi))

theorem Terminated.symbolLength_eq {data : Nat → UInt8} {size : Nat} (h : Terminated data size) :
    symbolLength data = min size 11 := by
  refine Sqc.symbolLength_eq (Nat.min_le_right ..) (fun i hi => h.1 i (List.mem_range.mpr hi)) ?_
  intro hlt
  have hsize : min size 11 = size := by omega
  rw [hsize]
  exact h.2 (by omega)

/-- What `SnapshotTo` makes of the symbol of a book. -/
def shown (symbol : SymbolChars) : SymbolChars :=
  copyUntilZero (.replicate 12 0) (symbol.toList.getD · 0)

theorem getElem_copyUntilZero (dst : SymbolChars) (src : Nat → UInt8) {i : Nat} (hi : i < 12) :
    (copyUntilZero dst src)[i] =
      if i < symbolLength src then src i else if i = symbolLength src then 0 else dst[i] := by
  rw [copyUntilZero, Vector.getElem_ofFn]
  rfl

theorem getElem_copySymbol {v : StringView} {data : Nat → UInt8} (hdata : v.data = some data)
    {i : Nat} (hi : i < 12) :
    (MyCallbacks.copySymbol v)[i] = if i < min v.size 11 then data i else 0 := by
  have hofFn : (MyCallbacks.copySymbol v)[i] = if i < 11 then v.bytes.getD i 0 else 0 := by
    rw [MyCallbacks.copySymbol, Vector.getElem_ofFn]
  have hbytes : v.bytes.getD i 0 = if i < v.size then data i else 0 := by
    simp only [StringView.bytes, hdata, List.getD_eq_getElem?_getD, List.getElem?_map]
    split
    next hlt => rw [List.getElem?_range hlt]; rfl
    next hge => rw [List.getElem?_eq_none (by simpa using hge)]; rfl
  rw [hofFn, hbytes]
  repeat' split
  all_goals first | rfl | omega

theorem StringView.Terminated.of_data {v : StringView} {data : Nat → UInt8}
    (h : v.Terminated) (hdata : v.data = some data) : Sqc.Terminated data v.size := by
  simpa only [StringView.Terminated, hdata] using h

/-- A depth event then shows the symbol of the ticks. -/
theorem shown_copyUntilZero {v : StringView} {data : Nat → UInt8} (hdata : v.data = some data)
    (h : v.Terminated) (dst : SymbolChars) :
    shown (copyUntilZero dst data) = MyCallbacks.copySymbol v := by
  have hterm := h.of_data hdata
  have hsrc {i : Nat} (hi : i < 12) : (copyUntilZero dst data).toList.getD i 0 =
      if i < min v.size 11 then data i else if i = min v.size 11 then 0 else dst[i] := by
    rw [← hterm.symbolLength_eq, ← getElem_copyUntilZero dst data hi]
    simp [List.getD_eq_getElem?_getD, hi]
  have hlen : symbolLength ((copyUntilZero dst data).toList.getD · 0) = min v.size 11 := by
    refine symbolLength_eq (Nat.min_le_right ..) (fun i hi => ?_) fun hlt => ?_
    · rw [hsrc (by omega), if_pos hi]
      exact hterm.1 i (List.mem_range.mpr hi)
    · rw [hsrc (by omega), if_neg (Nat.lt_irrefl _), if_pos rfl]
  refine Vector.ext fun i hi => ?_
  rw [shown, getElem_copyUntilZero _ _ hi, hlen, getElem_copySymbol hdata hi]
  split
  next hlt => rw [hsrc hi, if_pos hlt]
  next => rw [Vector.getElem_replicate, ite_self]

/-- Nothing behind the ticker is copied. -/
theorem copyUntilZero_congr {v v' : StringView} {data data' : Nat → UInt8}
    (hdata : v.data = some data) (hdata' : v'.data = some data') (h : v.Terminated)
    (h' : v'.Terminated) (hbytes : v.bytes = v'.bytes) (dst : SymbolChars) :
    copyUntilZero dst data = copyUntilZero dst data' := by
  simp only [StringView.bytes, hdata, hdata'] at hbytes
  have hsize : v.size = v'.size := by simpa using congrArg List.length hbytes
  refine Vector.ext fun i hi => ?_
  rw [getElem_copyUntilZero _ _ hi, getElem_copyUntilZero _ _ hi,
    (h.of_data hdata).symbolLength_eq, (h'.of_data hdata').symbolLength_eq, ← hsize]
  split
  next hlt =>
    have hi : i ∈ List.range v.size := List.mem_range.mpr (by omega)
    rw [← hsize] at hbytes
    exact List.map_inj_left.mp hbytes i hi
  next => rfl

namespace MyCallbacks

variable {P Q : Type} {map : RithmicChannelMap}

/-- A book is created with a ticker that `Init` reads to its end. -/
def CreatesTerminated (map : RithmicChannelMap) (s : MyCallbacks P Q) : GatewayCall P → Prop
  | .book header _ => header.channelId map ≠ RithmicChannelMap.kNotFound →
    s.channelToBook (header.channelId map) = none → s.bookCount < kMaxBooks →
    header.ticker.Terminated
  | .tradePrint .. | .bestBidAskQuote .. => True

instance (map : RithmicChannelMap) (s : MyCallbacks P Q) (call : GatewayCall P) :
    Decidable (CreatesTerminated map s call) :=
  match call with
  | .book header _ => inferInstanceAs (Decidable (header.channelId map ≠ _ →
      s.channelToBook (header.channelId map) = none → s.bookCount < kMaxBooks →
      header.ticker.Terminated))
  | .tradePrint .. | .bestBidAskQuote .. => isTrue trivial

/-- Callbacks for one channel carry one ticker. -/
def OneTicker (map : RithmicChannelMap) (calls : List (GatewayCall P)) : Prop :=
  ∀ a ∈ calls, ∀ b ∈ calls, a.header.channelId map ≠ RithmicChannelMap.kNotFound →
    a.header.channelId map = b.header.channelId map →
    a.header.ticker.bytes = b.header.ticker.bytes

/-- The events of a channel carry the symbol of its ticker. -/
structure SymbolsRight (map : RithmicChannelMap) (calls : List (GatewayCall P))
    (s : MyCallbacks P Q) : Prop where
  depth : ∀ e ∈ s.depthQueue, ∀ call ∈ calls, call.header.channelId map = e.channelId →
    e.symbol = symbolSpec call.header.sTicker.text
  tick : ∀ e ∈ s.tickQueue, ∀ call ∈ calls, call.header.channelId map = e.channelId →
    e.symbol = symbolSpec call.header.sTicker.text
  bookTicker : ∀ e ∈ s.bookTickerQueue, ∀ call ∈ calls, call.header.channelId map = e.channelId →
    e.symbol = symbolSpec call.header.sTicker.text

/-! ## Where the symbols come from -/

/-- One of the callbacks was for the channel and had the symbol. -/
def Sourced (map : RithmicChannelMap) (calls : List (GatewayCall P)) (ch : UInt32)
    (symbol : SymbolChars) : Prop :=
  ch ≠ RithmicChannelMap.kNotFound ∧
    ∃ call ∈ calls, call.header.channelId map = ch ∧ symbol = copySymbol call.header.ticker

structure SymbolsSourced (map : RithmicChannelMap) (calls : List (GatewayCall P))
    (s : MyCallbacks P Q) : Prop where
  slot : ∀ ch idx, s.channelToBook ch = some idx → Sourced map calls ch (shown (s.books idx).symbol)
  depth : ∀ e ∈ s.depthQueue, Sourced map calls e.channelId e.symbol
  tick : ∀ e ∈ s.tickQueue, Sourced map calls e.channelId e.symbol
  bookTicker : ∀ e ∈ s.bookTickerQueue, Sourced map calls e.channelId e.symbol

variable {calls : List (GatewayCall P)} {s t : MyCallbacks P Q}

theorem Sourced.concat {ch : UInt32} {symbol : SymbolChars} (h : Sourced map calls ch symbol)
    (call : GatewayCall P) : Sourced map (calls ++ [call]) ch symbol := by
  obtain ⟨hch, a, ha, hsource⟩ := h
  exact ⟨hch, a, List.mem_append_left _ ha, hsource⟩

theorem sourced_self (calls : List (GatewayCall P)) (call : GatewayCall P)
    (hch : call.header.channelId map ≠ RithmicChannelMap.kNotFound) :
    Sourced map (calls ++ [call]) (call.header.channelId map) (copySymbol call.header.ticker) :=
  ⟨hch, call, List.mem_append_right _ List.mem_cons_self, rfl, rfl⟩

theorem SymbolsSourced.concat (h : SymbolsSourced map calls s) (call : GatewayCall P) :
    SymbolsSourced map (calls ++ [call]) s where
  slot ch idx hmap := (h.slot ch idx hmap).concat call
  depth e he := (h.depth e he).concat call
  tick e he := (h.tick e he).concat call
  bookTicker e he := (h.bookTicker e he).concat call

/-- Finding or creating a book. -/
theorem SymbolsSourced.found (h : SymbolsSourced map calls s) (hok : SlotsOk s)
    {header : CallHeader} {c : Callback P} {idx : Option UInt8} (hfound : Found map s header t idx)
    (hterm : CreatesTerminated map s (.book header c)) :
    SymbolsSourced map (calls ++ [.book header c]) t := by
  cases hfound with
  | unresolved _ | known _ _ | full _ _ => exact h.concat _
  | @created symbol hch hnone hlt hsymbol =>
    have hconcat := h.concat (.book header c)
    refine ⟨fun ch idx hmap => ?_, hconcat.depth, hconcat.tick, hconcat.bookTicker⟩
    change Function.update s.channelToBook _ _ ch = some idx at hmap
    show Sourced map _ ch (shown (Function.update s.books _ _ idx).symbol)
    rcases eq_or_ne ch (header.channelId map) with rfl | hne
    · rw [Function.update_self] at hmap
      cases hmap
      have hshown := shown_copyUntilZero hsymbol (hterm hch hnone hlt)
        (s.books (UInt8.ofNat s.bookCount)).symbol
      rw [Function.update_self, BookSlot.init, hshown]
      exact sourced_self calls (.book header c) hch
    · rw [Function.update_of_ne hne] at hmap
      have hidx : idx ≠ UInt8.ofNat s.bookCount := by
        rintro rfl
        have hlast := hok.slot_lt ch _ hmap
        rw [toNat_ofNat_of_lt hlt] at hlast
        exact Nat.lt_irrefl _ hlast
      rw [Function.update_of_ne hidx]
      exact hconcat.slot ch idx hmap

/-- Working on a book. -/
theorem SymbolsSourced.worked (h : SymbolsSourced map calls s) (hok : SlotsOk t) {idx : UInt8}
    {ch : UInt32} (hmap : s.channelToBook ch = some idx) (hworked : Worked idx s t) :
    SymbolsSourced map calls t where
  slot ch' idx' hmap' := by
    rw [hworked.channelToBook] at hmap'
    rcases eq_or_ne idx' idx with rfl | hne
    · rw [hworked.symbol]
      exact h.slot ch' idx' hmap'
    · rw [hworked.books idx' hne]
      exact h.slot ch' idx' hmap'
  depth e he := by
    obtain ⟨new, hnew, hsnapshot⟩ := hworked.depths
    rw [hnew, List.mem_append] at he
    rcases he with hold | he
    · exact h.depth e hold
    · have hid : (t.books idx).channelId = ch :=
        hok.channelId_eq ch idx (hworked.channelToBook ▸ hmap)
      have hslot := h.slot ch idx hmap
      rw [hsnapshot e he]
      show Sourced map calls (t.books idx).channelId (shown (t.books idx).symbol)
      rw [hid, hworked.symbol]
      exact hslot
  tick := by
    rw [hworked.ticks]
    exact h.tick
  bookTicker := by
    rw [hworked.bookTickers]
    exact h.bookTicker

variable [LinearOrder P] [LinearOrder Q] [Zero Q] {sc : SizeCast Q} {maxDepthLevels : UInt32}

theorem SymbolsSourced.step [Zero P] (h : SymbolsSourced map calls s) (hok : SlotsOk s)
    {call : GatewayCall P} (hterm : CreatesTerminated map s call)
    (hs : (machine map sc maxDepthLevels).step s call = some t) :
    SymbolsSourced map (calls ++ [call]) t := by
  cases call with
  | book header c =>
    rcases bookCall_cases hs with hfound | ⟨u, idx, hfound, hworked⟩
    · exact h.found hok hfound hterm
    · have hoku := hfound.slotsOk hok
      exact (h.found hok hfound hterm).worked (hworked.slotsOk hoku) hfound.slot hworked
  | tradePrint header info =>
    have hconcat := h.concat (.tradePrint header info)
    cases hs
    rw [tradePrint]
    split
    next => exact hconcat
    next hch =>
      refine ⟨hconcat.slot, hconcat.depth, ?_, hconcat.bookTicker⟩
      refine List.forall_mem_append.mpr ⟨hconcat.tick, List.forall_mem_singleton.mpr ?_⟩
      exact sourced_self calls (.tradePrint header info) hch
  | bestBidAskQuote header bid ask =>
    have hconcat := h.concat (.bestBidAskQuote header bid ask)
    cases hs
    rw [bestBidAskQuote]
    split
    next => exact hconcat
    next hch =>
      refine ⟨hconcat.slot, hconcat.depth, hconcat.tick, ?_⟩
      refine List.forall_mem_append.mpr ⟨hconcat.bookTicker, List.forall_mem_singleton.mpr ?_⟩
      exact sourced_self calls (.bestBidAskQuote header bid ask) hch

/-! ## What lies behind the texts -/

/-- The same characters were given; what follows them in memory may differ. -/
structure SameText (a b : NCharcb) : Prop where
  text : a.text = b.text
  null_iff : a.pData = none ↔ b.pData = none

structure SameHeader (a b : CallHeader) : Prop where
  exchange : SameText a.sExchange b.sExchange
  ticker : SameText a.sTicker b.sTicker
  ssboe : a.iSsboe = b.iSsboe
  usecs : a.iUsecs = b.iUsecs
  systemMicros : a.systemMicros = b.systemMicros
  steadyNs : a.steadyNs = b.steadyNs

inductive SameCall : GatewayCall P → GatewayCall P → Prop
  | book {a b : CallHeader} (c : Callback P) : SameHeader a b → SameCall (.book a c) (.book b c)
  | tradePrint {a b : CallHeader} (dPrice : P) (llSize : Int64) {side side' : NCharcb} :
    SameHeader a b → SameText side side' →
    SameCall (.tradePrint a ⟨dPrice, llSize, side⟩) (.tradePrint b ⟨dPrice, llSize, side'⟩)
  | bestBidAskQuote {a b : CallHeader} (bid ask : QuoteInfo P) : SameHeader a b →
    SameCall (.bestBidAskQuote a bid ask) (.bestBidAskQuote b bid ask)

section
omit [LinearOrder P] [LinearOrder Q] [Zero Q]

theorem SameText.bytes_eq {a b : NCharcb} (h : SameText a b) : (toSv a).bytes = (toSv b).bytes := by
  rw [bytes_toSv, bytes_toSv, h.text]

theorem SameText.data_cases {a b : NCharcb} (h : SameText a b) :
    (toSv a).data = none ∧ (toSv b).data = none ∨
      ∃ data data', (toSv a).data = some data ∧ (toSv b).data = some data' := by
  have hdata (s : NCharcb) : (toSv s).data = s.pData := by
    rw [toSv]
    cases s.pData with
    | none | some _ => rfl
  rw [hdata, hdata]
  cases ha : a.pData with
  | none => exact .inl ⟨rfl, h.null_iff.mp ha⟩
  | some data =>
    refine .inr ⟨data, ?_⟩
    cases hb : b.pData with
    | none => cases ha.symm.trans (h.null_iff.mpr hb)
    | some data' => exact ⟨data', rfl, rfl⟩

namespace SameHeader

variable {a b : CallHeader}

theorem channelId_eq (h : SameHeader a b) : a.channelId map = b.channelId map := by
  rw [CallHeader.channelId, CallHeader.channelId, CallHeader.ticker, CallHeader.ticker,
    h.exchange.bytes_eq, h.ticker.bytes_eq]

theorem timestamp_eq (h : SameHeader a b) : a.timestamp = b.timestamp := by
  rw [CallHeader.timestamp, CallHeader.timestamp, h.ssboe, h.usecs]

theorem copySymbol_eq (h : SameHeader a b) : copySymbol a.ticker = copySymbol b.ticker := by
  rw [CallHeader.ticker, CallHeader.ticker, copySymbol_toSv, copySymbol_toSv, h.ticker.text]

theorem pushSnapshot_eq (h : SameHeader a b) (s : MyCallbacks P Q) (book : BookSlot P Q) :
    s.pushSnapshot book a = s.pushSnapshot book b := by
  rw [pushSnapshot, pushSnapshot, h.timestamp_eq, h.systemMicros, h.steadyNs]

theorem findBook_eq (h : SameHeader a b) {s : MyCallbacks P Q} {c : Callback P}
    (ha : CreatesTerminated map s (.book a c)) (hb : CreatesTerminated map s (.book b c)) :
    findBook map s a = findBook map s b := by
  simp only [CreatesTerminated, h.channelId_eq] at ha
  simp only [findBook, h.channelId_eq]
  split
  next => rfl
  next hch =>
    split
    next => rfl
    next hnone =>
      split
      next => rfl
      next hfull =>
        have hlt := Nat.lt_of_not_le hfull
        rcases h.ticker.data_cases with ⟨hdata, hdata'⟩ | ⟨data, data', hdata, hdata'⟩
        · rw [CallHeader.ticker, CallHeader.ticker, hdata, hdata']
        · have hcopy := copyUntilZero_congr hdata hdata' (ha hch hnone hlt) (hb hch hnone hlt)
            h.ticker.bytes_eq (s.books (UInt8.ofNat s.bookCount)).symbol
          rw [CallHeader.ticker, CallHeader.ticker, hdata, hdata', Option.map_some, Option.map_some]
          simp only [addBook, BookSlot.init, hcopy]

end SameHeader

end

theorem step_congr [Zero P] {a b : GatewayCall P} (h : SameCall a b)
    (ha : CreatesTerminated map s a) (hb : CreatesTerminated map s b) :
    (machine map sc maxDepthLevels).step s a = (machine map sc maxDepthLevels).step s b := by
  cases h with
  | book c hheader =>
    show bookCall map sc maxDepthLevels s _ c = bookCall map sc maxDepthLevels s _ c
    rw [bookCall, bookCall, hheader.findBook_eq ha hb]
    simp only [onBook, hheader.pushSnapshot_eq]
  | tradePrint dPrice llSize hheader hside =>
    show some (tradePrint map sc s _ _) = some (tradePrint map sc s _ _)
    simp only [tradePrint, hheader.channelId_eq, hheader.timestamp_eq, hheader.steadyNs,
      hheader.copySymbol_eq, hside.bytes_eq]
  | bestBidAskQuote bid ask hheader =>
    show some (bestBidAskQuote map sc s _ bid ask) = some (bestBidAskQuote map sc s _ bid ask)
    simp only [bestBidAskQuote, hheader.channelId_eq, hheader.timestamp_eq, hheader.steadyNs,
      hheader.copySymbol_eq]

/-! ## Runs -/

omit [LinearOrder P] [LinearOrder Q] [Zero Q] in
theorem SymbolsSourced.right (h : SymbolsSourced map calls s) (hone : OneTicker map calls) :
    SymbolsRight map calls s := by
  have hright {ch : UInt32} {symbol : SymbolChars} (hsource : Sourced map calls ch symbol)
      {call : GatewayCall P} (hcall : call ∈ calls) (hch : call.header.channelId map = ch) :
      symbol = symbolSpec call.header.sTicker.text := by
    obtain ⟨hne, a, ha, rfl, rfl⟩ := hsource
    have hbytes := hone a ha call hcall hne hch.symm
    rw [← copySymbol_toSv, copySymbol, hbytes]
    rfl
  exact ⟨fun e he _ => hright (h.depth e he), fun e he _ => hright (h.tick e he),
    fun e he _ => hright (h.bookTicker e he)⟩

/-- Over every sequence of callbacks whose channels have one ticker each and whose books are created
with a ticker that `Init` reads to its end: all events of a channel carry the symbol of its ticker,
and what lies behind the texts in memory makes no difference. -/
theorem symbols_right [Zero P] (map : RithmicChannelMap) (sc : SizeCast Q)
    (maxDepthLevels : UInt32) (calls : List (GatewayCall P)) (s : MyCallbacks P Q)
    (hs : (machine map sc maxDepthLevels).exec (machine map sc maxDepthLevels).init calls = some s)
    (hone : OneTicker map calls)
    (hterm : (machine map sc maxDepthLevels).Along (CreatesTerminated (P := P) (Q := Q) map)
      (machine map sc maxDepthLevels).init calls) :
    SymbolsRight map calls s ∧
      ∀ calls', List.Forall₂ SameCall calls calls' →
        (machine map sc maxDepthLevels).Along (CreatesTerminated (P := P) (Q := Q) map)
          (machine map sc maxDepthLevels).init calls' →
        (machine map sc maxDepthLevels).exec (machine map sc maxDepthLevels).init calls' =
          some s := by
  have hstep : ∀ done (u : MyCallbacks P Q) call v, SymbolsSourced map done u ∧ SlotsOk u →
      CreatesTerminated map u call → (machine map sc maxDepthLevels).step u call = some v →
      SymbolsSourced map (done ++ [call]) v ∧ SlotsOk v :=
    fun done u call v hu hcall hv => ⟨hu.1.step hu.2 hcall hv, hu.2.step hv⟩
  have hinit : SymbolsSourced map [] (init : MyCallbacks P Q) ∧ SlotsOk (init : MyCallbacks P Q) :=
    ⟨⟨fun _ _ h => absurd h (Option.some_ne_none _).symm, List.forall_mem_nil _,
      List.forall_mem_nil _, List.forall_mem_nil _⟩, slotsOk_init⟩
  have hsourced := ((machine map sc maxDepthLevels).exec_history
    (R := fun done u => SymbolsSourced map done u ∧ SlotsOk u) hstep hinit hterm hs).1
  refine ⟨hsourced.right hone, fun calls' hsame hterm' => ?_⟩
  rw [← hs]
  exact ((machine map sc maxDepthLevels).exec_congr step_congr hsame hterm hterm').symm

/-- A trade and a quote for a ticker. -/
def tradeAndQuote (ticker : NCharcb) : List (GatewayCall Int) :=
  [.tradePrint (exampleHeader ticker) ⟨10, 5, zeroTerminated "S"⟩,
    .book (exampleHeader ticker) (.quote (.askQuote ⟨1, true, 10, true, 5⟩))]

/-- A ticker of four characters, with other text behind it. -/
def unterminated : NCharcb := ⟨some ("ESZ5XCME".toUTF8.toList.getD · 0), 4⟩

theorem symbol_beyond_ticker :
    unterminated.text = "ESZ5".toUTF8.toList ∧
      ∃ s, (machine twoChannels intCast 10).exec (machine twoChannels intCast 10).init
          (tradeAndQuote unterminated) = some s ∧
        s.tickQueue.map (·.symbol) = [symbolSpec "ESZ5".toUTF8.toList] ∧
        s.depthQueue.map (·.symbol) = [symbolSpec "ESZ5XCME".toUTF8.toList] ∧
        s.tickQueue.map (·.channelId) = s.depthQueue.map (·.channelId) := by
  have hrun : ((machine twoChannels intCast 10).exec (machine twoChannels intCast 10).init
      (tradeAndQuote unterminated)).map (fun s => (s.tickQueue.map (·.symbol),
        s.depthQueue.map (·.symbol),
        decide (s.tickQueue.map (·.channelId) = s.depthQueue.map (·.channelId)))) =
      some ([symbolSpec "ESZ5".toUTF8.toList], [symbolSpec "ESZ5XCME".toUTF8.toList], true) := by
    decide +kernel
  obtain ⟨s, hs, hqueues⟩ := Option.map_eq_some_iff.mp hrun
  obtain ⟨htick, hqueues⟩ := Prod.mk.inj hqueues
  obtain ⟨hdepth, hch⟩ := Prod.mk.inj hqueues
  exact ⟨by decide +kernel, s, hs, htick, hdepth, of_decide_eq_true hch⟩

theorem tradeAndQuote_symbols_right :
    ∃ s, (machine twoChannels intCast 10).exec (machine twoChannels intCast 10).init
        (tradeAndQuote (zeroTerminated "ESZ5")) = some s ∧ s.tickQueue.length = 1 ∧
      s.depthQueue.length = 1 ∧
      SymbolsRight twoChannels (tradeAndQuote (zeroTerminated "ESZ5")) s := by
  have hrun : ((machine twoChannels intCast 10).exec (machine twoChannels intCast 10).init
      (tradeAndQuote (zeroTerminated "ESZ5"))).map
      (fun s => (s.tickQueue.length, s.depthQueue.length)) = some (1, 1) := by
    decide +kernel
  obtain ⟨s, hs, hlengths⟩ := Option.map_eq_some_iff.mp hrun
  obtain ⟨htick, hdepth⟩ := Prod.mk.inj hlengths
  refine ⟨s, hs, htick, hdepth, (symbols_right twoChannels intCast 10 _ s hs ?_ ?_).1⟩
  · intro a ha b hb _ _
    simp only [tradeAndQuote, List.mem_cons, List.not_mem_nil, or_false] at ha hb
    rcases ha with rfl | rfl <;> rcases hb with rfl | rfl <;> rfl
  · decide +kernel

end MyCallbacks

end Sqc
