import SmartQuantCollector.Exchange.Crypto.Parsers

/-! # Malformed levels of depth messages

Which levels of a depth message a parser stores. A level should be stored when its price and its
quantity are numbers as a whole, and skipped otherwise. `depth_levels_iff` says for which messages
that is so: the levels the loops come to must not make simdjson throw, must not have a number that
is followed by something else where a level would be stored, and in a message of Gate.io perpetual a
price must not come with a quantity that is no number. -/

namespace Sqc
open JsonTree

variable (num : Doubles)

/-! ## Levels -/

/-- A level `[price, quantity, ...]` of two numerals. -/
def entireLevel : Value → Option PriceLevel
  | .array (.string price :: .string qty :: _) => do
    return ⟨← num.entire price, ← num.entire qty⟩
  | _ => none

/-- The level is an array of texts, as far as it is read, and not both of them start with a number
unless both are numbers. -/
def PositionalTame : Value → Prop
  | .array [] => True
  | .array (.string price :: rest) =>
    num.svToDouble price = none ∨
      match rest with
      | [] => True
      | .string qty :: _ =>
        num.svToDouble qty = none ∨ (num.entire price).isSome ∧ (num.entire qty).isSome
      | _ => False
  | _ => False

namespace GateioPerpetual

/-- A level with a numeral as `p` and a numeral or an integer as `s`. -/
def entireLevel (lv : Value) : Option PriceLevel := do
  let price ← (← lv.stringAt "p") |> num.entire
  let quantity ← Gateio.entireQuantity num (← lv.getField "s")
  return ⟨price, quantity⟩

/-- The level has a text as `p`, and if that starts with a number, both fields are numbers. -/
def LevelTame (lv : Value) : Prop :=
  ∃ price, lv.stringAt "p" = some price ∧ (num.svToDouble price = none ∨
    (num.entire price).isSome ∧ ((lv.getField "s").bind (Gateio.entireQuantity num)).isSome)

end GateioPerpetual

variable {num}

theorem Doubles.entire_eq_none {sv : String} (h : num.svToDouble sv = none) :
    num.entire sv = none := by
  cases hd : num.entire sv with
  | none => rfl
  | some d => cases h.symm.trans (Doubles.svToDouble_of_entire hd)

/-- Two texts that start with numbers. -/
theorem entire_pair_iff {price qty : String} {p q : Double} (hp : num.svToDouble price = some p)
    (hq : num.svToDouble qty = some q) :
    ((num.entire price).isSome = true ∧ (num.entire qty).isSome = true) ↔
      some (some (PriceLevel.mk p q)) =
        some (entireLevel num (.array [.string price, .string qty])) := by
  cases hprice : num.entire price with
  | none => simp [entireLevel, hprice]
  | some p' =>
    cases hp.symm.trans (Doubles.svToDouble_of_entire hprice)
    cases hqty : num.entire qty with
    | none => simp [entireLevel, hqty]
    | some q' =>
      cases hq.symm.trans (Doubles.svToDouble_of_entire hqty)
      simp [entireLevel, hprice, hqty]

theorem entireLevel_of_price {price : String} (h : num.entire price = none) (rest : List Value) :
    entireLevel num (.array (.string price :: rest)) = none := by
  rcases rest with _ | ⟨qty, rest⟩
  · rfl
  · cases qty with
    | string qty => simp [entireLevel, h]
    | _ => rfl

theorem entireLevel_of_qty {price qty : String} (h : num.entire qty = none) (rest : List Value) :
    entireLevel num (.array (.string price :: .string qty :: rest)) = none := by
  simp [entireLevel, h]

theorem positionalTame_iff (lv : Value) :
    PositionalTame num lv ↔ positionalLevel num lv = some (entireLevel num lv) := by
  cases lv with
  | array items =>
    rcases items with _ | ⟨price, rest⟩
    · exact iff_of_true trivial rfl
    · cases price with
      | string price =>
        cases hp : num.svToDouble price with
        | none =>
          -- the level is skipped before the quantity is looked at
          refine iff_of_true (.inl hp) ?_
          simp only [positionalLevel, Value.getString, hp,
            entireLevel_of_price (Doubles.entire_eq_none hp)]
        | some p =>
          rcases rest with _ | ⟨qty, rest⟩
          · refine iff_of_true (.inr trivial) ?_
            simp only [positionalLevel, Value.getString, hp]
            rfl
          · cases qty with
            | string qty =>
              simp only [PositionalTame, positionalLevel, Value.getString, hp, reduceCtorEq,
                false_or, Option.map_some]
              cases hq : num.svToDouble qty with
              | none =>
                refine iff_of_true (.inl rfl) ?_
                rw [entireLevel_of_qty (Doubles.entire_eq_none hq)]
                rfl
              | some q =>
                rw [eq_false (Option.some_ne_none q), false_or]
                exact entire_pair_iff hp hq
            | _ =>
              simp only [PositionalTame, positionalLevel, Value.getString, hp]
              refine iff_of_false (fun h => ?_) fun h => by cases h
              rcases h with h | h
              · cases h
              · exact h
      | _ => exact iff_of_false id fun h => by cases h
  | _ => exact iff_of_false id fun h => by cases h

theorem Gateio.entireQuantity_eq_none {field : Value} (h : parseQuantity num field = none) :
    entireQuantity num field = none := by
  cases hd : entireQuantity num field with
  | none => rfl
  | some d => cases h.symm.trans (parseQuantity_of_entire hd)

theorem GateioPerpetual.levelTame_iff (lv : Value) :
    LevelTame num lv ↔ depthLevel num lv = some (entireLevel num lv) := by
  unfold LevelTame depthLevel entireLevel
  cases hsv : lv.stringAt "p" with
  | none =>
    refine iff_of_false ?_ fun h => by cases h
    rintro ⟨price, hprice, -⟩
    cases hprice
  | some price =>
    simp only [Option.bind_eq_bind, Option.bind_some, Option.some.injEq, exists_eq_left']
    cases hp : num.svToDouble price with
    | none =>
      refine iff_of_true (.inl rfl) ?_
      rw [Doubles.entire_eq_none hp]
      rfl
    | some p =>
      rw [eq_false (Option.some_ne_none p), false_or]
      cases lv.getField "s" with
      | none => exact iff_of_false (fun h => by cases h.2) fun h => by cases h
      | some field =>
        simp only [Option.bind_some]
        cases hq : Gateio.parseQuantity num field with
        | none =>
          rw [Gateio.entireQuantity_eq_none hq]
          exact iff_of_false (fun h => by cases h.2) fun h => by cases h
        | some q =>
          cases hprice : num.entire price with
          | none => simp
          | some p' =>
            cases hp.symm.trans (Doubles.svToDouble_of_entire hprice)
            cases hqty : Gateio.entireQuantity num field with
            | none => simp
            | some q' =>
              cases hq.symm.trans (Gateio.parseQuantity_of_entire hqty)
              simp

/-! ## The loops over levels -/

namespace ExchangeAdapter

variable (num) in
/-- A pass through the loop over the levels of a depth message. -/
def readLevel : ExchangeAdapter → Value → Option (Option PriceLevel)
  | .gateioPerpetual => GateioPerpetual.depthLevel num
  | .binanceSpot | .binancePerpetual | .gateioSpot => positionalLevel num

variable (num) in
/-- The level of a message whose price and quantity are numbers as a whole. -/
def wantLevel : ExchangeAdapter → Value → Option PriceLevel
  | .gateioPerpetual => GateioPerpetual.entireLevel num
  | .binanceSpot | .binancePerpetual | .gateioSpot => entireLevel num

variable (num) in
def LevelTame : ExchangeAdapter → Value → Prop
  | .gateioPerpetual => GateioPerpetual.LevelTame num
  | .binanceSpot | .binancePerpetual | .gateioSpot => PositionalTame num

theorem levelTame_iff (adapter : ExchangeAdapter) (lv : Value) :
    adapter.LevelTame num lv ↔ adapter.readLevel num lv = some (adapter.wantLevel num lv) := by
  cases adapter with
  | gateioPerpetual => exact GateioPerpetual.levelTame_iff lv
  | binanceSpot | binancePerpetual | gateioSpot => exact positionalTame_iff lv

variable (num) in
/-- The levels that a loop stores, with what it stores for them. -/
def storedLevels (adapter : ExchangeAdapter) (levels : List Value) :
    Option (List (Value × PriceLevel)) :=
  CappedScan.scan (CappedScan.tagged (adapter.readLevel num)) kMaxOrderbookLevels levels []

variable (num) in
/-- The levels that should be stored. -/
def wantedLevels (adapter : ExchangeAdapter) (levels : List Value) : List (Value × PriceLevel) :=
  CappedScan.firsts (adapter.wantLevel num) kMaxOrderbookLevels levels

variable (num) in
/-- Every level that fewer than `kMaxOrderbookLevels` wanted ones precede is tame. -/
def Tame (adapter : ExchangeAdapter) (levels : List Value) : Prop :=
  CappedScan.UpTo (adapter.wantLevel num) kMaxOrderbookLevels (adapter.LevelTame num) levels

theorem storedLevels_iff (adapter : ExchangeAdapter) (levels : List Value) :
    adapter.storedLevels num levels = some (adapter.wantedLevels num levels) ↔
      adapter.Tame num levels := by
  rw [storedLevels, wantedLevels, CappedScan.scan_tagged_iff, Tame]
  exact CappedScan.UpTo.congr fun lv => (adapter.levelTame_iff lv).symm

/-- The loop itself stores the levels without their values. -/
theorem map_storedLevels (adapter : ExchangeAdapter) (levels : List Value) :
    (adapter.storedLevels num levels).map (List.map Prod.snd) =
      CappedScan.scan (adapter.readLevel num) kMaxOrderbookLevels levels [] :=
  CappedScan.map_scan_tagged levels []

end ExchangeAdapter

/-! ## Messages -/

/-- The envelope of Gate.io, whose two formats name the update id differently. -/
structure IsGateioDepth (idField : String) (doc : Value) (bids asks : List Value) : Prop where
  event : ∃ ev, doc.stringAt "event" = some ev ∧ (ev = "update" ∨ ev = "all")
  result : ∃ result, doc.getField "result" = some result ∧
    (result.uint64At "t").isSome = true ∧ (result.uint64At idField).isSome = true ∧
    result.arrayAt "bids" = some bids ∧ result.arrayAt "asks" = some asks

theorem IsGateioDepth.fields {idField : String} {doc : Value} {bids asks : List Value}
    (h : IsGateioDepth idField doc bids asks) :
    ∃ ev result t id, doc.stringAt "event" = some ev ∧
      ¬ (ev ≠ "update" ∧ ev ≠ "all") ∧ doc.getField "result" = some result ∧
      result.uint64At "t" = some t ∧ result.uint64At idField = some id ∧
      result.arrayAt "bids" = some bids ∧ result.arrayAt "asks" = some asks := by
  obtain ⟨ev, hev, hupdate⟩ := h.event
  obtain ⟨result, hresult, ht, hid, hbids, hasks⟩ := h.result
  obtain ⟨t, ht⟩ := Option.isSome_iff_exists.mp ht
  obtain ⟨id, hid⟩ := Option.isSome_iff_exists.mp hid
  refine ⟨ev, result, t, id, hev, ?_, hresult, ht, hid, hbids, hasks⟩
  rintro ⟨hne, hne'⟩
  exact hupdate.elim hne hne'

/-- A depth message of an adapter with well-formed fields and the given levels. -/
inductive IsDepth (doc : Value) (bids asks : List Value) : ExchangeAdapter → Prop where
  | binanceSpot (lastUpdateId : (doc.uint64At "lastUpdateId").isSome = true)
      (hbids : doc.arrayAt "bids" = some bids) (hasks : doc.arrayAt "asks" = some asks) :
      IsDepth doc bids asks .binanceSpot
  | binancePerpetual (eventTime : (doc.int64At "E").isSome = true)
      (lastUpdateId : (doc.int64At "u").isSome = true)
      (hbids : doc.arrayAt "b" = some bids) (hasks : doc.arrayAt "a" = some asks) :
      IsDepth doc bids asks .binancePerpetual
  | gateioSpot (h : IsGateioDepth "lastUpdateId" doc bids asks) : IsDepth doc bids asks .gateioSpot
  | gateioPerpetual (h : IsGateioDepth "id" doc bids asks) : IsDepth doc bids asks .gateioPerpetual

variable {adapter : ExchangeAdapter} {doc : Value} {bids asks : List Value}

/-- The parser of a message with well-formed fields runs its two loops. -/
theorem IsDepth.parseDepth (h : IsDepth doc bids asks adapter) (clock : UInt64) :
    ∃ timestamp id, adapter.parseDepth num doc clock =
      (CappedScan.scan (adapter.readLevel num) kMaxOrderbookLevels bids []).bind fun b =>
        (CappedScan.scan (adapter.readLevel num) kMaxOrderbookLevels asks []).bind fun a =>
          some (depthEvent timestamp id b a) := by
  cases h with
  | binanceSpot hid hbids hasks =>
    obtain ⟨id, hid⟩ := Option.isSome_iff_exists.mp hid
    refine ⟨clock, id, ?_⟩
    simp only [ExchangeAdapter.parseDepth, BinanceSpot.parsePartialDepth, hid, hbids, hasks]
    rfl
  | binancePerpetual htime hid hbids hasks =>
    obtain ⟨time, htime⟩ := Option.isSome_iff_exists.mp htime
    obtain ⟨id, hid⟩ := Option.isSome_iff_exists.mp hid
    refine ⟨msToUs time.toUInt64, id.toUInt64, ?_⟩
    simp only [ExchangeAdapter.parseDepth, BinancePerpetual.parseDepthEvent, htime, hid, hbids,
      hasks]
    rfl
  | gateioSpot h =>
    obtain ⟨ev, result, t, id, hev, hne, hresult, ht, hid, hbids, hasks⟩ := h.fields
    refine ⟨msToUs t, id, ?_⟩
    simp only [ExchangeAdapter.parseDepth, GateioSpot.parseDepthEvent, Gateio.skipTimeEnvelope_eq,
      hev, Option.bind_eq_bind, Option.bind_some, if_neg hne, hresult, ht, hid, hbids,
      hasks]
    rfl
  | gateioPerpetual h =>
    obtain ⟨ev, result, t, id, hev, hne, hresult, ht, hid, hbids, hasks⟩ := h.fields
    refine ⟨msToUs t, id, ?_⟩
    simp only [ExchangeAdapter.parseDepth, GateioPerpetual.parseDepthEvent,
      Gateio.skipTimeEnvelope_eq, hev, Option.bind_eq_bind, Option.bind_some, if_neg hne,
      hresult, ht, hid, hbids, hasks]
    rfl

/-! ## The levels of an event -/

def DepthUpdateEvent.bidLevels (event : DepthUpdateEvent) : List PriceLevel :=
  event.bids.toList.take event.bidCount.toNat

def DepthUpdateEvent.askLevels (event : DepthUpdateEvent) : List PriceLevel :=
  event.asks.toList.take event.askCount.toNat

theorem take_levelSlots {levels : List PriceLevel} (h : levels.length ≤ kMaxOrderbookLevels) :
    (levelSlots levels).toList.take (UInt32.ofNat levels.length).toNat = levels := by
  have hcount : (UInt32.ofNat levels.length).toNat = levels.length :=
    UInt32.toNat_ofNat_of_lt (Nat.lt_of_le_of_lt h (by decide))
  rw [hcount]
  refine List.ext_getElem ?_ fun i hi hi' => ?_
  · simpa using h
  · simp [levelSlots, hi']

variable (num) in
/-- The parser succeeds, the levels it emits are the wanted ones, and it stores no other level. -/
structure EmitsWanted (adapter : ExchangeAdapter) (doc : Value) (clock : UInt64)
    (bids asks : List Value) : Prop where
  event : ∃ event, adapter.parseDepth num doc clock = some event ∧
    event.bidLevels = (bids.filterMap (adapter.wantLevel num)).take kMaxOrderbookLevels ∧
    event.askLevels = (asks.filterMap (adapter.wantLevel num)).take kMaxOrderbookLevels
  bids : adapter.storedLevels num bids = some (adapter.wantedLevels num bids)
  asks : adapter.storedLevels num asks = some (adapter.wantedLevels num asks)

/-- The values that a loop stores. -/
theorem scan_of_stored {levels : List Value}
    (h : adapter.storedLevels num levels = some (adapter.wantedLevels num levels)) :
    CappedScan.scan (adapter.readLevel num) kMaxOrderbookLevels levels [] =
      some ((levels.filterMap (adapter.wantLevel num)).take kMaxOrderbookLevels) := by
  rw [← adapter.map_storedLevels, h, Option.map_some, ExchangeAdapter.wantedLevels,
    CappedScan.map_snd_firsts]

/-- The event has the wanted levels of a depth message, if and only if both sides are tame. -/
theorem depth_levels_iff (num : Doubles) (adapter : ExchangeAdapter) (doc : Value)
    (clock : UInt64) (bids asks : List Value) (h : IsDepth doc bids asks adapter) :
    EmitsWanted num adapter doc clock bids asks ↔
      adapter.Tame num bids ∧ adapter.Tame num asks := by
  constructor
  · intro hemits
    exact ⟨(adapter.storedLevels_iff bids).mp hemits.bids,
      (adapter.storedLevels_iff asks).mp hemits.asks⟩
  · rintro ⟨hbids, hasks⟩
    have hbids := (adapter.storedLevels_iff bids).mpr hbids
    have hasks := (adapter.storedLevels_iff asks).mpr hasks
    obtain ⟨timestamp, id, hparse⟩ := @IsDepth.parseDepth num adapter doc bids asks h clock
    rw [scan_of_stored hbids, scan_of_stored hasks] at hparse
    refine ⟨⟨_, hparse, ?_, ?_⟩, hbids, hasks⟩
    · exact take_levelSlots (List.length_take_le ..)
    · exact take_levelSlots (List.length_take_le ..)

/-! ### Messages with malformed levels -/

/-- An order book of Gate.io perpetual without asks. -/
def perpetualBook (bids : List Value) : Value :=
  .object [("time", .integer 1779923753), ("channel", .string "futures.order_book"),
    ("event", .string "all"), ("result", .object [("t", .integer 1779923753557),
      ("id", .integer 113557080620), ("asks", .array []), ("bids", .array bids)])]

theorem isDepth_perpetualBook (bids : List Value) :
    IsDepth (perpetualBook bids) bids [] .gateioPerpetual :=
  .gateioPerpetual ⟨⟨_, rfl, .inr rfl⟩, ⟨_, rfl, rfl, rfl, rfl, rfl⟩⟩

def unpriced : Value := .object [("p", .string "n/a"), ("s", .integer 147)]

def priced : Value := .object [("p", .string "74486.1"), ("s", .integer 138237)]

theorem unpriced_level_skipped :
    EmitsWanted .decimal .gateioPerpetual (perpetualBook [unpriced, priced]) 0
      [unpriced, priced] [] := by
  have htame : ∀ lv ∈ [unpriced, priced], GateioPerpetual.LevelTame .decimal lv := by
    rw [List.forall_mem_cons, List.forall_mem_singleton]
    constructor
    · exact ⟨"n/a", rfl, .inl (by decide +kernel)⟩
    · exact ⟨"74486.1", rfl, .inr (by decide +kernel)⟩
  refine (depth_levels_iff .decimal .gateioPerpetual _ 0 _ _ (isDepth_perpetualBook _)).mpr ⟨?_, ?_⟩
  · exact CappedScan.upTo_of_forall htame
  · exact CappedScan.upTo_of_forall fun lv hlv => absurd hlv List.not_mem_nil

/-- An update of Binance perpetual without asks. -/
def depthUpdate (bids : List Value) : Value :=
  .object [("e", .string "depthUpdate"), ("E", .integer 1545136464123), ("u", .integer 7),
    ("b", .array bids), ("a", .array [])]

/-- A quantity that is no number is emitted as zero, a price that starts with a number as that
number, and a price that is no text makes the parser give up the whole message. -/
theorem malformed_levels_not_skipped :
    (ExchangeAdapter.gateioPerpetual.parseDepth .decimal (perpetualBook
        [.object [("p", .string "74486.1"), ("s", .string "n/a")]]) 0).map (·.bidLevels) =
      some [⟨0x40F22F619999999A, 0⟩] ∧
    (ExchangeAdapter.binancePerpetual.parseDepth .decimal (depthUpdate
        [.array [.string "1.5x", .string "20"]]) 0).map (·.bidLevels) =
      some [⟨0x3FF8000000000000, 0x4034000000000000⟩] ∧
    (ExchangeAdapter.binancePerpetual.parseDepth .decimal (depthUpdate
        [.array [.string "1.5", .string "20"], .array [.integer 1, .string "20"]]) 0).isNone =
      true := by
  decide +kernel

end Sqc
