import SmartQuantCollector.Storage.Backend.MmapOrderbook

/-! # Decoding the fallback file

The degradation fallback of `MmapBackend` appends ticks, order books and book tickers to one file,
without a tag that tells the kind of a record. The bytes determine the records once the kinds are
known (`recorded_eq_iff_kinds_eq`), but not the kinds: the bytes of book tickers may be those of
order books. -/

namespace Sqc
open Concurrency LittleEndian MmapStorageEngine

/-! ## Fields at the front of a byte string -/

theorem encode64_append_inj {a b : UInt64} {r r' : List UInt8} :
    encode 8 a.toNat ++ r = encode 8 b.toNat ++ r' ↔ a = b ∧ r = r' := by
  constructor
  · intro h
    obtain ⟨henc, hr⟩ := List.append_inj h (by simp)
    exact ⟨UInt64.toNat_inj.mp (encode_inj a.toNat_lt b.toNat_lt henc), hr⟩
  · rintro ⟨rfl, rfl⟩
    rfl

theorem encode32_append_inj {a b : UInt32} {r r' : List UInt8} :
    encode 4 a.toNat ++ r = encode 4 b.toNat ++ r' ↔ a = b ∧ r = r' := by
  constructor
  · intro h
    obtain ⟨henc, hr⟩ := List.append_inj h (by simp)
    exact ⟨UInt32.toNat_inj.mp (encode_inj a.toNat_lt b.toNat_lt henc), hr⟩
  · rintro ⟨rfl, rfl⟩
    rfl

theorem toList_append_inj {n : Nat} {v w : Vector UInt8 n} {r r' : List UInt8} :
    v.toList ++ r = w.toList ++ r' ↔ v = w ∧ r = r' := by
  constructor
  · intro h
    obtain ⟨hv, hr⟩ := List.append_inj h (by simp)
    exact ⟨Vector.toList_inj.mp hv, hr⟩
  · rintro ⟨rfl, rfl⟩
    rfl

theorem flagByte_inj : ∀ a b : Bool,
    (if a then (1 : UInt8) else 0) = (if b then 1 else 0) → a = b := by
  decide

theorem copySymbol_append_inj {a b : SymbolChars} {r r' : List UInt8} :
    copySymbol a ++ r = copySymbol b ++ r' ↔ a = b ∧ r = r' := by
  rw [copySymbol, copySymbol, List.append_assoc, List.append_assoc, toList_append_inj,
    List.append_cancel_left_eq]

theorem priceLevelBytes_append_inj {a b : PriceLevel} {r r' : List UInt8} :
    priceLevelBytes a ++ r = priceLevelBytes b ++ r' ↔ a = b ∧ r = r' := by
  obtain ⟨price, quantity⟩ := a
  obtain ⟨price', quantity'⟩ := b
  simp only [priceLevelBytes, List.append_assoc, encode64_append_inj, PriceLevel.mk.injEq,
    and_assoc]

theorem flatMap_priceLevelBytes_append_inj {as bs : List PriceLevel} {r r' : List UInt8}
    (hlen : as.length = bs.length)
    (h : as.flatMap priceLevelBytes ++ r = bs.flatMap priceLevelBytes ++ r') :
    as = bs ∧ r = r' := by
  induction as generalizing bs with
  | nil =>
    cases List.length_eq_zero_iff.mp hlen.symm
    exact ⟨rfl, h⟩
  | cons a as ih =>
    obtain ⟨b, bs, rfl⟩ := List.exists_cons_of_length_eq_add_one hlen.symm
    rw [List.flatMap_cons, List.flatMap_cons, List.append_assoc, List.append_assoc,
      priceLevelBytes_append_inj] at h
    obtain ⟨htail, hr⟩ := ih (Nat.succ.inj hlen) h.2
    exact ⟨h.1 ▸ htail ▸ rfl, hr⟩

namespace MmapBackend

/-! ## Fallback records -/

/-- A call of `AppendFallback*`. A tick comes with the unspecified bytes of its padding. -/
inductive Fallback where
  | tick (data : TickData) (pad : Vector UInt8 4) (tail : List UInt8)
  | orderbook (event : DepthUpdateEvent) (localTs : UInt64)
  | bookTicker (event : BookTickerEvent)

/-- The fields that a record holds. -/
inductive Recorded where
  | tick (data : TickData)
  | orderbook (exchangeTimestamp localTs : UInt64) (symbol : SymbolChars)
    (bids asks : List PriceLevel)
  | bookTicker (exchangeTimestamp localDiff : UInt64) (symbol : SymbolChars)
    (bestBidPrice bestBidQty bestAskPrice bestAskQty : Double)
deriving DecidableEq

def Recorded.kind : Recorded → EventKind
  | .tick _ => .tick
  | .orderbook .. => .depth
  | .bookTicker .. => .bookTicker

namespace Fallback

def recorded : Fallback → Recorded
  | tick data _ _ => .tick data
  | orderbook event localTs =>
    .orderbook event.exchangeTimestamp localTs event.symbol
      (event.bids.toList.take event.bidCount.toNat) (event.asks.toList.take event.askCount.toNat)
  | bookTicker event =>
    .bookTicker event.exchangeTimestamp event.localDiff event.symbol event.bestBidPrice
      event.bestBidQty event.bestAskPrice event.bestAskQty

/-- The `AppendRaw` calls on the fallback engine. -/
def calls : Fallback → List (List UInt8)
  | tick data pad tail => [tickEnvelopeBytes data 1 pad tail]
  | orderbook event localTs => writeOrderbook event localTs
  | bookTicker event => [bookTickerBytes event]

def bytes (x : Fallback) : List UInt8 := x.calls.flatten

/-- The counts are within the arrays, and the envelope has the size of the platform. -/
def Valid (envelopeTail : Nat) : Fallback → Prop
  | tick _ _ tail => tail.length = envelopeTail
  | orderbook event _ =>
    event.bidCount.toNat ≤ kMaxOrderbookLevels ∧ event.askCount.toNat ≤ kMaxOrderbookLevels
  | bookTicker _ => True

instance (envelopeTail : Nat) : ∀ x : Fallback, Decidable (x.Valid envelopeTail)
  | tick _ _ tail => inferInstanceAs (Decidable (tail.length = envelopeTail))
  | orderbook _ _ => inferInstanceAs (Decidable (_ ∧ _))
  | bookTicker _ => isTrue trivial

end Fallback

theorem tickEnvelopeBytes_append_inj {a b : TickData} {pad pad' : Vector UInt8 4}
    {tail tail' r r' : List UInt8} (htail : tail.length = tail'.length)
    (h : tickEnvelopeBytes a 1 pad tail ++ r = tickEnvelopeBytes b 1 pad' tail' ++ r') :
    a = b ∧ r = r' := by
  obtain ⟨ts, diff, id, price, qty, ch, sym, maker, padding⟩ := a
  obtain ⟨ts', diff', id', price', qty', ch', sym', maker', padding'⟩ := b
  simp only [tickEnvelopeBytes, tickDataBytes, List.append_assoc, encode64_append_inj,
    encode32_append_inj, toList_append_inj, List.cons_append, List.nil_append, List.cons.injEq,
    List.append_cancel_left_eq] at h
  obtain ⟨rfl, rfl, rfl, rfl, rfl, rfl, rfl, hmaker, rfl, -, hrest⟩ := h
  cases flagByte_inj _ _ hmaker
  exact ⟨rfl, (List.append_inj hrest htail).2⟩

theorem bookTickerBytes_append_inj {a b : BookTickerEvent} {r r' : List UInt8}
    (h : bookTickerBytes a ++ r = bookTickerBytes b ++ r') :
    (Fallback.bookTicker a).recorded = (Fallback.bookTicker b).recorded ∧ r = r' := by
  simp only [bookTickerBytes, List.append_assoc, encode64_append_inj, copySymbol_append_inj] at h
  obtain ⟨hts, hdiff, hsym, hbp, hbq, hap, haq, hr⟩ := h
  exact ⟨by rw [Fallback.recorded, Fallback.recorded, hts, hdiff, hsym, hbp, hbq, hap, haq], hr⟩

theorem bytes_orderbook (event : DepthUpdateEvent) (localTs : UInt64) :
    (Fallback.orderbook event localTs).bytes = orderbookHeaderBytes event localTs ++
      (priceLevelsBytes event.bids event.bidCount ++
        priceLevelsBytes event.asks event.askCount) := by
  have hoptional (levels : Vector PriceLevel kMaxOrderbookLevels) (count : UInt32) :
      (if count > 0 then [priceLevelsBytes levels count] else []).flatten =
        priceLevelsBytes levels count := by
    split
    next => rw [List.flatten_singleton]
    next hpos =>
      have hzero : count.toNat = 0 :=
        Nat.eq_zero_of_not_pos fun h => hpos (UInt32.lt_iff_toNat_lt.mpr h)
      rw [priceLevelsBytes, hzero]
      rfl
  rw [Fallback.bytes, Fallback.calls, writeOrderbook, List.flatten_cons, List.flatten_append,
    hoptional, hoptional]

theorem priceLevelsBytes_append_inj {as bs : Vector PriceLevel kMaxOrderbookLevels}
    {count : UInt32} {r r' : List UInt8}
    (h : priceLevelsBytes as count ++ r = priceLevelsBytes bs count ++ r') :
    as.toList.take count.toNat = bs.toList.take count.toNat ∧ r = r' := by
  refine flatMap_priceLevelBytes_append_inj ?_ h
  simp only [List.length_take, Vector.length_toList]

/-- The header tells how many levels follow. -/
theorem orderbook_append_inj {a b : DepthUpdateEvent} {localTs localTs' : UInt64}
    {r r' : List UInt8}
    (h : (Fallback.orderbook a localTs).bytes ++ r = (Fallback.orderbook b localTs').bytes ++ r') :
    (Fallback.orderbook a localTs).recorded = (Fallback.orderbook b localTs').recorded ∧
      r = r' := by
  simp only [bytes_orderbook, orderbookHeaderBytes, List.append_assoc, encode64_append_inj,
    encode32_append_inj, copySymbol_append_inj] at h
  obtain ⟨hts, hlocal, hsym, hbid, hask, h⟩ := h
  rw [hbid, hask] at h
  obtain ⟨hbids, h⟩ := priceLevelsBytes_append_inj h
  obtain ⟨hasks, h⟩ := priceLevelsBytes_append_inj h
  refine ⟨?_, h⟩
  rw [Fallback.recorded, Fallback.recorded, hts, hlocal, hsym, hbid, hask, hbids, hasks]

/-- Records of one kind: the front of a byte string determines the fields and where they end. -/
theorem bytes_append_inj {envelopeTail : Nat} {x y : Fallback} {r r' : List UInt8}
    (hx : x.Valid envelopeTail) (hy : y.Valid envelopeTail)
    (hkind : x.recorded.kind = y.recorded.kind) (h : x.bytes ++ r = y.bytes ++ r') :
    x.recorded = y.recorded ∧ r = r' := by
  cases x with
  | tick a pad tail =>
    cases y with
    | tick b pad' tail' =>
      simp only [Fallback.bytes, Fallback.calls, List.flatten_singleton] at h
      obtain ⟨rfl, hr⟩ := tickEnvelopeBytes_append_inj (hx.trans hy.symm) h
      exact ⟨rfl, hr⟩
    | _ => cases hkind
  | orderbook a localTs =>
    cases y with
    | orderbook b localTs' => exact orderbook_append_inj h
    | _ => cases hkind
  | bookTicker a =>
    cases y with
    | bookTicker b =>
      simp only [Fallback.bytes, Fallback.calls, List.flatten_singleton] at h
      exact bookTickerBytes_append_inj h
    | _ => cases hkind

theorem recorded_eq_of_kinds_eq {envelopeTail : Nat} {xs ys : List Fallback}
    (hxs : ∀ x ∈ xs, x.Valid envelopeTail) (hys : ∀ y ∈ ys, y.Valid envelopeTail)
    (hkinds : xs.map (·.recorded.kind) = ys.map (·.recorded.kind))
    (h : xs.flatMap Fallback.bytes = ys.flatMap Fallback.bytes) :
    xs.map Fallback.recorded = ys.map Fallback.recorded := by
  induction xs generalizing ys with
  | nil =>
    cases List.map_eq_nil_iff.mp hkinds.symm
    rfl
  | cons x xs ih =>
    cases ys with
    | nil => cases hkinds
    | cons y ys =>
      rw [List.flatMap_cons, List.flatMap_cons] at h
      obtain ⟨hkind, hkinds⟩ := List.cons.inj hkinds
      obtain ⟨hx, hxs⟩ := List.forall_mem_cons.mp hxs
      obtain ⟨hy, hys⟩ := List.forall_mem_cons.mp hys
      obtain ⟨hrecorded, hrest⟩ := bytes_append_inj hx hy hkind h
      rw [List.map_cons, List.map_cons, hrecorded, ih hxs hys hkinds hrest]

/-! ## The fallback engine -/

namespace Degraded

structure State where
  engine : MmapStorageEngine.State
  /-- The calls of `AppendFallback*` so far. -/
  appended : List Fallback

inductive Action where
  | append (x : Fallback)
  | run (mapped : Bool)

def step (cfg : Config) (envelopeTail : Nat) (s : State) : Action → Option State
  | .append x =>
    if x.Valid envelopeTail then
      (start s.engine x.calls).map fun e => ⟨e, s.appended ++ [x]⟩
    else none
  | .run mapped => (MmapStorageEngine.step cfg s.engine mapped).map fun e => ⟨e, s.appended⟩

/-- The fallback after `EnsureFallback` has opened its engine over the files that are there. -/
def machine (cfg : Config) (envelopeTail : Nat) (disk : Nat → File) : Machine State Action where
  init := ⟨openOrCreate disk true, []⟩
  step := step cfg envelopeTail

/-- No append is in progress, and none has rolled to a new file. -/
def Settled (s : State) : Prop :=
  s.engine.calls = [] ∧ s.engine.stage = .test ∧ s.engine.isOpen = true ∧ s.engine.sequence = 0

instance (s : State) : Decidable (Settled s) := inferInstanceAs (Decidable (_ ∧ _))

/-- As long as no append has rolled, the file holds the appended records but for the bytes still to
be appended. -/
structure Inv (envelopeTail : Nat) (s : State) : Prop where
  ok : Ok s.engine
  valid : ∀ x ∈ s.appended, x.Valid envelopeTail
  opened : s.engine.stage = .reset → s.engine.sequence = 0 →
    s.appended = [] ∧ s.engine.calls = []
  written : s.engine.stage ≠ .reset → s.engine.isOpen = true → s.engine.sequence = 0 →
    s.engine.payload 0 ++ s.engine.calls.flatten = s.appended.flatMap Fallback.bytes

variable {cfg : Config} {envelopeTail : Nat} {s t : State}

theorem Inv.append {x : Fallback} {e : MmapStorageEngine.State} (h : Inv envelopeTail s)
    (hx : x.Valid envelopeTail) (he : start s.engine x.calls = some e) :
    Inv envelopeTail ⟨e, s.appended ++ [x]⟩ := by
  obtain ⟨hstage, hcalls, rfl, hok⟩ := h.ok.start he
  refine ⟨hok, ?_, fun hreset => ?_, fun hne hopen hseq => ?_⟩
  · intro y hy
    rcases List.mem_append.mp hy with hy | hy
    · exact h.valid y hy
    · cases List.mem_singleton.mp hy
      exact hx
  · cases hstage.symm.trans hreset
  · have hwritten := h.written hne hopen hseq
    rw [hcalls, List.flatten_nil, List.append_nil] at hwritten
    rw [List.flatMap_append, List.flatMap_singleton, ← hwritten]
    rfl

theorem Inv.run {e : MmapStorageEngine.State} (h : Inv envelopeTail s)
    (he : Effect cfg s.engine e) : Inv envelopeTail ⟨e, s.appended⟩ := by
  have hok := he.ok h.ok
  cases he with
  | returns hstage hcalls hor =>
    refine ⟨hok, h.valid, fun hreset => ?_, fun hne hopen hseq => ?_⟩
    · cases hstage.symm.trans hreset
    rcases hor with hclosed | rfl
    · cases hclosed.symm.trans hopen
    · have hwritten := h.written hne hopen hseq
      rwa [hcalls, List.flatten_cons, List.nil_append] at hwritten
  | rollFails _ _ _ _ _ | rolls _ _ _ _ _ =>
    exact ⟨hok, h.valid, fun _ hseq => (by cases hseq), fun _ _ hseq => (by cases hseq)⟩
  | fits hstage _ hopen _ _ =>
    have hne : s.engine.stage ≠ .reset := fun hreset => by cases hstage.symm.trans hreset
    exact ⟨hok, h.valid, fun hreset => (by cases hreset), fun _ _ hseq => h.written hne hopen hseq⟩
  | resets hstage =>
    refine ⟨hok, h.valid, fun hreset => ?_, fun _ _ hseq => ?_⟩
    · simp only [State.resetHeader] at hreset
      split at hreset <;> cases hreset
    · obtain ⟨happended, hcalls⟩ := h.opened hstage hseq
      rw [payload_resetHeader, show s.engine.sequence = 0 from hseq, Function.update_self]
      show [] ++ s.engine.calls.flatten = _
      rw [happended, hcalls]
      rfl
  | copies hstage hcalls =>
    have hne : s.engine.stage ≠ .reset := fun hreset => by cases hstage.symm.trans hreset
    refine ⟨hok, h.valid, fun hreset => (by cases hreset), fun _ hopen hseq => ?_⟩
    rw [h.ok.payload_copyBytes hstage]
    exact h.written hne hopen hseq
  | publishes hstage hcalls =>
    have hne : s.engine.stage ≠ .reset := fun hreset => by cases hstage.symm.trans hreset
    refine ⟨hok, h.valid, fun hreset => (by cases hreset), fun _ hopen hseq => ?_⟩
    have hwritten := h.written hne hopen hseq
    rw [hcalls, List.flatten_cons, ← List.append_assoc] at hwritten
    rw [h.ok.payload_publishBytes hstage hcalls, show s.engine.sequence = 0 from hseq,
      Function.update_self]
    exact hwritten

theorem step_inv {a : Action} (h : Inv envelopeTail s) (hst : step cfg envelopeTail s a = some t) :
    Inv envelopeTail t := by
  cases a with
  | append x =>
    simp only [step] at hst
    split at hst
    next hx =>
      obtain ⟨e, he, rfl⟩ := Option.map_eq_some_iff.mp hst
      exact h.append hx he
    next => cases hst
  | run mapped =>
    obtain ⟨e, he, rfl⟩ := Option.map_eq_some_iff.mp hst
    exact h.run (step_effect he)

theorem exec_inv {disk : Nat → File} {as : List Action}
    (hs : (machine cfg envelopeTail disk).exec (machine cfg envelopeTail disk).init as = some s) :
    Inv envelopeTail s := by
  have hinit : Inv envelopeTail (machine cfg envelopeTail disk).init :=
    ⟨ok_openOrCreate disk true, List.forall_mem_nil _, fun _ _ => ⟨rfl, rfl⟩,
      fun hne => absurd rfl hne⟩
  exact (machine cfg envelopeTail disk).exec_invariant
    (fun _ _ _ h _ hst => step_inv h hst) hinit (Machine.along_true ..) hs

theorem Inv.payload_eq (h : Inv envelopeTail s) (hs : Settled s) :
    s.engine.payload 0 = s.appended.flatMap Fallback.bytes := by
  obtain ⟨hcalls, hstage, hopen, hseq⟩ := hs
  have hwritten := h.written (by rw [hstage]; nofun) hopen hseq
  rwa [hcalls, List.flatten_nil, List.append_nil] at hwritten

/-- Two runs that leave the same bytes in the first file have recorded the same fields if and only
if they appended records of the same kinds. -/
theorem recorded_eq_iff_kinds_eq {cfg cfg' : Config} {envelopeTail : Nat} {disk disk' : Nat → File}
    {as as' : List Action} {s s' : State}
    (hs : (machine cfg envelopeTail disk).exec (machine cfg envelopeTail disk).init as = some s)
    (hs' : (machine cfg' envelopeTail disk').exec (machine cfg' envelopeTail disk').init as' =
      some s')
    (hsettled : Settled s) (hsettled' : Settled s')
    (hbytes : s.engine.payload 0 = s'.engine.payload 0) :
    s.appended.map Fallback.recorded = s'.appended.map Fallback.recorded ↔
      s.appended.map (·.recorded.kind) = s'.appended.map (·.recorded.kind) := by
  have hinv := exec_inv hs
  have hinv' := exec_inv hs'
  rw [hinv.payload_eq hsettled, hinv'.payload_eq hsettled'] at hbytes
  constructor
  · intro h
    have hkinds := congrArg (List.map Recorded.kind) h
    rwa [List.map_map, List.map_map] at hkinds
  · intro hkinds
    exact recorded_eq_of_kinds_eq hinv.valid hinv'.valid hkinds hbytes

/-! ## Records of different kinds -/

/-- A new engine with files of one page, and appends that stay in the first one. -/
def onePage : Machine State Action := machine ⟨4096, 4096⟩ 0 fun _ => File.zero

def appendAll (xs : List Fallback) : List Action :=
  .run true :: xs.flatMap fun x =>
    .append x :: x.calls.flatMap fun _ => List.replicate 3 (.run true)

/-- A run settles with the appends `xs`. -/
def Appends (xs : List Fallback) (s : State) : Prop :=
  onePage.exec onePage.init (appendAll xs) = some s ∧ Settled s ∧ s.appended = xs

theorem Appends.payload_eq {xs : List Fallback} (h : Appends xs s) :
    s.engine.payload 0 = xs.flatMap Fallback.bytes := by
  obtain ⟨hs, hsettled, rfl⟩ := h
  exact (exec_inv hs).payload_eq hsettled

theorem exists_appends (xs : List Fallback)
    (h : (onePage.exec onePage.init (appendAll xs)).map
      (fun s => (decide (Settled s), s.appended)) = some (true, xs)) : ∃ s, Appends xs s := by
  obtain ⟨s, hs, h⟩ := Option.map_eq_some_iff.mp h
  obtain ⟨hsettled, happended⟩ := Prod.mk.inj h
  exact ⟨s, hs, of_decide_eq_true hsettled, happended⟩

def zeroSymbol : SymbolChars := Vector.replicate 12 0

/-- A book ticker; the channel is not recorded. -/
def quote (channelId : UInt32) : Fallback :=
  .bookTicker ⟨channelId, 1700000000000000, 5, zeroSymbol, 1, 2, 3, 4⟩

theorem otherChannel_recorded_eq : ∃ s s', Appends [quote 1] s ∧ Appends [quote 2] s' ∧
    s.engine.payload 0 = s'.engine.payload 0 ∧
    s.appended.map Fallback.recorded = s'.appended.map Fallback.recorded := by
  obtain ⟨s, hs⟩ := exists_appends [quote 1] rfl
  obtain ⟨s', hs'⟩ := exists_appends [quote 2] rfl
  have hbytes : s.engine.payload 0 = s'.engine.payload 0 := by
    rw [hs.payload_eq, hs'.payload_eq]
    rfl
  refine ⟨s, s', hs, hs', hbytes, ?_⟩
  refine (recorded_eq_iff_kinds_eq hs.1 hs'.1 hs.2.1 hs'.2.1 hbytes).mpr ?_
  rw [hs.2.2, hs'.2.2]
  rfl

def emptyLevels : Vector PriceLevel kMaxOrderbookLevels := Vector.replicate _ ⟨0, 0⟩

/-- The price of the first bid is zero, so its first 56 bytes are an order book without levels. -/
def firstQuote : Fallback := .bookTicker ⟨1, 1700000000000000, 5, zeroSymbol, 0, 17, 18, 19⟩

/-- The bytes 8 to 11 of the symbol are where the header that began in the record before it has
its number of bids. -/
def secondQuote : Fallback :=
  .bookTicker ⟨1, 20, 0, zeroSymbol.set 8 3, 21, 22, 23, 24⟩

def firstBook : Fallback :=
  .orderbook ⟨1, 1, 1700000000000000, 0, zeroSymbol, emptyLevels, emptyLevels, 0, 0⟩ 5

def secondBook : Fallback :=
  .orderbook ⟨1, 1, 17, 0, (zeroSymbol.set 0 19).set 8 20,
    (emptyLevels.set 1 ⟨21, 22⟩).set 2 ⟨23, 24⟩, emptyLevels, 3, 0⟩ 18

/-- Two book tickers and two order books leave the same 160 bytes. -/
theorem quotes_read_as_books : ∃ s s', Appends [firstQuote, secondQuote] s ∧
    Appends [firstBook, secondBook] s' ∧ s.engine.payload 0 = s'.engine.payload 0 ∧
    s.appended.map (·.recorded.kind) ≠ s'.appended.map (·.recorded.kind) := by
  obtain ⟨s, hs⟩ := exists_appends [firstQuote, secondQuote] rfl
  obtain ⟨s', hs'⟩ := exists_appends [firstBook, secondBook] rfl
  refine ⟨s, s', hs, hs', ?_, ?_⟩
  · rw [hs.payload_eq, hs'.payload_eq]
    decide +kernel
  · rw [hs.2.2, hs'.2.2]
    decide

end Degraded

end MmapBackend
end Sqc
