import SmartQuantCollector.Scripts.ImportTradeData
import SmartQuantCollector.Storage.Engine.CsvHeader

/-! # Reading CSV files back

The import script gets the events of a well formed file back, batch by batch: the trades always, the
book tickers if their symbols are plain UTF-8 text, and the order books if they have levels. -/

namespace Sqc
namespace ImportTradeData
open CsvWriter Concurrency

/-! ## Batches -/

theorem mapM_eq_some_map {α β : Type} {f : α → Option β} {g : α → β} {xs : List α}
    (h : ∀ x ∈ xs, f x = some (g x)) : xs.mapM f = some (xs.map g) := by
  induction xs with
  | nil => rfl
  | cons x xs ih =>
    obtain ⟨hx, hxs⟩ := List.forall_mem_cons.mp h
    rw [List.mapM_cons, hx, ih hxs]
    rfl

theorem batchIter_map {α β : Type} (f : α → β) (size : Int) (batch xs : List α) :
    batchIter size (batch.map f) (xs.map f) = (batchIter size batch xs).map (List.map f) := by
  induction xs generalizing batch with
  | nil => cases batch <;> rfl
  | cons x xs ih =>
    have hbatch : batch.map f ++ [f x] = (batch ++ [x]).map f := by
      rw [List.map_append, List.map_singleton]
    rw [List.map_cons, batchIter, batchIter, hbatch, List.length_map]
    split
    · exact congrArg _ (ih [])
    · exact ih (batch ++ [x])

theorem batchIter_mem {α : Type} {size : Int} {batch xs b : List α}
    (hb : b ∈ batchIter size batch xs) : b ≠ [] ∧ ∀ x ∈ b, x ∈ batch ++ xs := by
  induction xs generalizing batch with
  | nil =>
    rw [batchIter] at hb
    split at hb
    next => cases hb
    next hne =>
      cases List.mem_singleton.mp hb
      exact ⟨fun h => hne (h ▸ rfl), fun x hx => List.mem_append_left _ hx⟩
  | cons x xs ih =>
    have hmem : ∀ y ∈ batch ++ [x] ++ xs, y ∈ batch ++ x :: xs := fun y hy => by
      rwa [List.append_assoc] at hy
    rw [batchIter] at hb
    split at hb
    · rcases List.mem_cons.mp hb with rfl | hb
      · refine ⟨List.append_ne_nil_of_right_ne_nil _ (List.cons_ne_nil _ _), fun y hy => ?_⟩
        exact hmem y (List.mem_append_left _ hy)
      · obtain ⟨hne, hsub⟩ := ih hb
        refine ⟨hne, fun y hy => List.mem_append_right _ (List.mem_cons_of_mem _ ?_)⟩
        exact hsub y hy
    · obtain ⟨hne, hsub⟩ := ih hb
      exact ⟨hne, fun y hy => hmem y (hsub y hy)⟩

variable {fmt : DoubleFormat} (py : Python fmt) (channel : Meta)

/-- The rows that `DictReader` yields for a header and plain rows. -/
theorem dictReader_text {names : List (List Char)} {rows : List (List (List Char))}
    (hnames : Csv.PlainRow py.reader.limit names)
    (hrows : ∀ row ∈ rows, Csv.PlainRow py.reader.limit row) :
    dictReader py.reader (Csv.text (names :: rows)) = rows.map (dictRow names) := by
  have hkeep : rows.filter (· ≠ []) = rows := by
    refine List.filter_eq_self.mpr fun row hrow => decide_eq_true ?_
    rintro rfl
    cases (hrows _ hrow).two_le
  rw [dictReader, py.reader.rows_text (List.forall_mem_cons.mpr ⟨hnames, hrows⟩)]
  exact congrArg (List.map (dictRow names)) hkeep

theorem le_limit : 32 ≤ py.reader.limit := Nat.le_trans (by decide) py.limit_le

theorem plainRow_cells {row : List (List Char)} (htwo : 2 ≤ row.length)
    (h : ∀ f ∈ row, Csv.Cell 32 f) : Csv.PlainRow py.reader.limit row :=
  Csv.plainRow_of_cells (le_limit py) htwo h

/-- A file of plain rows is imported if every batch of its rows is parsed. The rows as they were
written are `raw`, as they are read `fields`. -/
theorem importFile_text {α β : Type} {parse : List Row → Option (List β)}
    {names : List (List Char)} {raw fields : α → List (List Char)} {g : α → β} {xs : List α}
    (htwo : 2 ≤ names.length) (hnames : ∀ f ∈ names, Csv.Cell 32 f)
    (hraw : ∀ x ∈ xs, List.Forall₂ Utf8.Encodes (raw x) (fields x))
    (hfields : ∀ x ∈ xs, Csv.PlainRow py.reader.limit (fields x))
    (hparse : ∀ batch ≠ [], (∀ x ∈ batch, x ∈ xs) →
      parse (batch.map fun x => dictRow names (fields x)) = some (batch.map g)) (size : Int) :
    importFile py parse size (Csv.text (names :: xs.map raw)) =
      some ((batchIter size [] xs).map (List.map g)) := by
  have hrows : ∀ row ∈ xs.map fields, Csv.PlainRow py.reader.limit row := by
    intro row hrow
    obtain ⟨x, hx, rfl⟩ := List.mem_map.mp hrow
    exact hfields x hx
  have hencodes : List.Forall₂ (List.Forall₂ Utf8.Encodes) (xs.map raw) (xs.map fields) :=
    List.forall₂_map_left_iff.mpr (List.forall₂_map_right_iff.mpr (List.forall₂_same.mpr hraw))
  rw [importFile, (Csv.encodes_text (.cons (Csv.encodes_cells hnames) hencodes)).decode_eq]
  show List.mapM parse (batchIter size [] (dictReader _ _)) = _
  rw [dictReader_text py (plainRow_cells py htwo hnames) hrows, List.map_map]
  have hmap := batchIter_map (dictRow names ∘ fields) size [] xs
  rw [List.map_nil] at hmap
  rw [hmap, List.mapM_map]
  refine mapM_eq_some_map fun batch hbatch => ?_
  obtain ⟨hne, hsub⟩ := batchIter_mem hbatch
  exact hparse batch hne hsub

/-! ## Trades and book tickers -/

/-- What the import makes of a trade. -/
def tradeRow (tick : TickData) : TradeRow :=
  ⟨tick.exchangeTimestamp.toNat, tick.localDiff.toNat, 0, py.readBack tick.price,
    py.readBack tick.quantity, if tick.isBuyerMaker then -1 else 1, tick.isBuyerMaker, channel,
    (tick.exchangeTimestamp / kUsecsPerDay).toNat⟩

def bookTickerRow (event : BookTickerEvent) : BookTickerRow :=
  ⟨event.exchangeTimestamp.toNat, event.localDiff.toNat, py.readBack event.bestBidPrice,
    py.readBack event.bestBidQty, py.readBack event.bestAskPrice, py.readBack event.bestAskQty,
    channel, (event.exchangeTimestamp / kUsecsPerDay).toNat⟩

theorem ddbDateInt_toNat (ts : UInt64) :
    ddbDateInt (ts.toNat : Int) = ((ts / kUsecsPerDay).toNat : Int) := by
  rw [ddbDateInt, Int.fdiv_eq_ediv_of_nonneg _ (by decide), UInt64.toNat_div]
  rfl

theorem int_direction (tick : TickData) :
    py.int (if tick.isBuyerMaker then "-1".toList else "1".toList) =
      some (if tick.isBuyerMaker then -1 else 1) := by
  split
  · exact py.int_minus_one
  · exact py.int_digits 1 (by decide)

theorem int_toNat (n : UInt64) : py.int (digits n.toNat) = some (n.toNat : Int) :=
  py.int_digits _ n.toNat_lt

theorem parseTrade_dictRow (tick : TickData) :
    parseTrade py channel (dictRow tradeHeader (tradeFields fmt tick)) =
      some (tradeRow py channel tick) := by
  obtain ⟨r, hr⟩ : ∃ r, r = dictRow tradeHeader (tradeFields fmt tick) := ⟨_, rfl⟩
  have hts : r.value "exchange_timestamp".toList = some (digits tick.exchangeTimestamp.toNat) :=
    hr ▸ rfl
  have hdirection : r.value "direction".toList =
      some (if tick.isBuyerMaker then "-1".toList else "1".toList) := hr ▸ rfl
  have hdiff : r.value "local_diff".toList = some (digits tick.localDiff.toNat) := hr ▸ rfl
  have hprice : r.value "price".toList = some (fmt.format tick.price) := hr ▸ rfl
  have hquantity : r.value "quantity".toList = some (fmt.format tick.quantity) := hr ▸ rfl
  have hmaker : ((if tick.isBuyerMaker then -1 else 1 : Int) == -1) = tick.isBuyerMaker := by
    cases tick.isBuyerMaker <;> rfl
  rw [← hr]
  simp only [parseTrade, hts, hdirection, hdiff, hprice, hquantity, Option.bind_some,
    int_toNat, int_direction, py.float_format, Option.bind_eq_bind, hmaker, ddbDateInt_toNat]
  rfl

/-- The fields of a book ticker as they are read. -/
def bookTickerTexts (fmt : DoubleFormat) (event : BookTickerEvent) : List (List Char) :=
  [digits event.exchangeTimestamp.toNat, digits event.localDiff.toNat,
    (Utf8.decode (cString event.symbol)).getD [], fmt.format event.bestBidPrice,
    fmt.format event.bestBidQty, fmt.format event.bestAskPrice, fmt.format event.bestAskQty]

theorem parseBookTicker_dictRow (event : BookTickerEvent) :
    parseBookTicker py channel (dictRow bookTickerHeader (bookTickerTexts fmt event)) =
      some (bookTickerRow py channel event) := by
  obtain ⟨r, hr⟩ : ∃ r, r = dictRow bookTickerHeader (bookTickerTexts fmt event) := ⟨_, rfl⟩
  have hts : r.value "exchange_timestamp".toList = some (digits event.exchangeTimestamp.toNat) :=
    hr ▸ rfl
  have hdiff : r.value "local_diff".toList = some (digits event.localDiff.toNat) := hr ▸ rfl
  have hbidPrice : r.value "best_bid_price".toList = some (fmt.format event.bestBidPrice) :=
    hr ▸ rfl
  have hbidQty : r.value "best_bid_qty".toList = some (fmt.format event.bestBidQty) := hr ▸ rfl
  have haskPrice : r.value "best_ask_price".toList = some (fmt.format event.bestAskPrice) :=
    hr ▸ rfl
  have haskQty : r.value "best_ask_qty".toList = some (fmt.format event.bestAskQty) := hr ▸ rfl
  rw [← hr]
  simp only [parseBookTicker, hts, hdiff, hbidPrice, hbidQty, haskPrice, haskQty, Option.bind_some,
    int_toNat, py.float_format, Option.bind_eq_bind, ddbDateInt_toNat]
  rfl

/-! ## Order books -/

/-- What the import makes of an order book with `depthLevel` levels. -/
def orderbookRow (event : DepthUpdateEvent) (localTs : UInt64) (depthLevel : UInt32) :
    OrderbookRow :=
  let side (levels : Vector PriceLevel kMaxOrderbookLevels) (count : UInt32)
      (value : PriceLevel → Double) : List Double :=
    (List.range depthLevel.toNat).map fun i => py.readBack (value (levelAt levels count i))
  ⟨event.exchangeTimestamp.toNat, localTs.toNat, channel,
    (event.exchangeTimestamp / kUsecsPerDay).toNat,
    side event.bids event.bidCount PriceLevel.price,
    side event.bids event.bidCount PriceLevel.quantity,
    side event.asks event.askCount PriceLevel.price,
    side event.asks event.askCount PriceLevel.quantity⟩

theorem removeAux_skip (pat p s : List Char) : removeAux pat p.length (p ++ s) = remove pat s := by
  induction p with
  | nil => rfl
  | cons c p ih => rw [List.length_cons, List.cons_append, removeAux, ih]

/-- An occurrence at the front is removed. -/
theorem remove_append_self (c : Char) (pat s : List Char) :
    remove (c :: pat) (c :: pat ++ s) = remove (c :: pat) s := by
  have hfront : (c :: pat).isPrefixOf (c :: pat ++ s) = true :=
    List.isPrefixOf_iff_prefix.mpr (List.prefix_append _ _)
  rw [remove, List.cons_append, removeAux, ← List.cons_append, if_pos hfront]
  exact removeAux_skip (c :: pat) pat s

theorem remove_cons {c : Char} {pat s : List Char} (h : pat.isPrefixOf (c :: s) = false) :
    remove pat (c :: s) = c :: remove pat s := by
  rw [remove, removeAux, if_neg (by rw [h]; nofun)]
  rfl

/-- A text without the first character of the pattern stays as it is. -/
theorem remove_of_notMem {c : Char} {pat s : List Char} (h : c ∉ s) :
    remove (c :: pat) s = s := by
  induction s with
  | nil => rfl
  | cons x s ih =>
    have hne : (c :: pat).isPrefixOf (x :: s) = false := by
      rw [List.isPrefixOf, Bool.and_eq_false_iff]
      exact .inl (beq_eq_false_iff_ne.mpr fun heq => h (heq ▸ List.mem_cons_self))
    rw [remove_cons hne, ih fun hmem => h (List.mem_cons_of_mem _ hmem)]

theorem notMem_digits {c : Char} (hc : c.isDigit = false) (n : Nat) : c ∉ digits n := fun h => by
  have := Nat.isDigit_of_mem_toDigits (by decide) (by decide) h
  rw [hc] at this
  cases this

theorem notMem_append_digits {c : Char} {name : List Char} (hc : c.isDigit = false)
    (hname : c ∉ name) (n : Nat) : c ∉ name ++ digits n := by
  rw [List.mem_append]
  rintro (h | h)
  · exact hname h
  · exact notMem_digits hc n h

/-- The prefixes of the columns of a level, in the order of a row. -/
def levelNames : List (List Char) :=
  ["ask_price".toList, "ask_size".toList, "bid_price".toList, "bid_size".toList]

theorem levelNumber_levelName {name : List Char} (hname : name ∈ levelNames) {n : Nat}
    (hn : n < 2 ^ 64) : levelNumber py (name ++ digits n) = some (n : Int) := by
  have hdigits {c : Char} {pat : List Char} (hc : c.isDigit = false) :
      remove (c :: pat) (digits n) = digits n := remove_of_notMem (notMem_digits hc n)
  have haskPrice : remove "ask_price".toList (digits n) = digits n := hdigits rfl
  have haskSize : remove "ask_size".toList (digits n) = digits n := hdigits rfl
  have hbidPrice : remove "bid_price".toList (digits n) = digits n := hdigits rfl
  have hbidSize : remove "bid_size".toList (digits n) = digits n := hdigits rfl
  have hself (c : Char) (pat : List Char) (h : remove (c :: pat) (digits n) = digits n) :
      remove (c :: pat) (c :: pat ++ digits n) = digits n := (remove_append_self c pat _).trans h
  have hother {c : Char} {pat name : List Char} (hc : c.isDigit = false) (hname : c ∉ name) :
      remove (c :: pat) (name ++ digits n) = name ++ digits n :=
    remove_of_notMem (notMem_append_digits hc hname n)
  suffices hkey : remove "bid_size".toList (remove "bid_price".toList (remove "ask_size".toList
      (remove "ask_price".toList (name ++ digits n)))) = digits n by
    rw [levelNumber, hkey, py.int_digits n hn]
  simp only [levelNames, List.mem_cons, List.not_mem_nil, or_false] at hname
  rcases hname with rfl | rfl | rfl | rfl
  · rw [show remove "ask_price".toList ("ask_price".toList ++ digits n) = _ from
      hself 'a' "sk_price".toList haskPrice, haskSize, hbidPrice, hbidSize]
  · -- `ask_size` starts like `ask_price`
    have hsame : remove "ask_price".toList ("ask_size".toList ++ digits n) =
        "ask_size".toList ++ digits n :=
      (remove_cons rfl).trans (congrArg (List.cons 'a') (hother rfl (by decide)))
    rw [hsame, show remove "ask_size".toList ("ask_size".toList ++ digits n) = _ from
      hself 'a' "sk_size".toList haskSize, hbidPrice, hbidSize]
  · have hask {pat : List Char} : remove ('a' :: pat) ("bid_price".toList ++ digits n) = _ :=
      hother rfl (by decide)
    rw [show remove "ask_price".toList ("bid_price".toList ++ digits n) = _ from hask,
      show remove "ask_size".toList ("bid_price".toList ++ digits n) = _ from hask,
      show remove "bid_price".toList ("bid_price".toList ++ digits n) = _ from
        hself 'b' "id_price".toList hbidPrice, hbidSize]
  · have hask {pat : List Char} : remove ('a' :: pat) ("bid_size".toList ++ digits n) = _ :=
      hother rfl (by decide)
    have hsame : remove "bid_price".toList ("bid_size".toList ++ digits n) =
        "bid_size".toList ++ digits n :=
      (remove_cons rfl).trans (congrArg (List.cons 'b') (hother rfl (by decide)))
    rw [show remove "ask_price".toList ("bid_size".toList ++ digits n) = _ from hask,
      show remove "ask_size".toList ("bid_size".toList ++ digits n) = _ from hask, hsame]
    exact hself 'b' "id_size".toList hbidSize

theorem levelName_inj {name name' : List Char} (hname : name ∈ levelNames)
    (hname' : name' ∈ levelNames) {m n : Nat} (h : name ++ digits m = name' ++ digits n) :
    name = name' ∧ m = n := by
  have hlen : ∀ name ∈ levelNames, 5 ≤ name.length := by decide
  have hfive : ∀ name ∈ levelNames, ∀ name' ∈ levelNames, name.take 5 = name'.take 5 →
      name = name' := by decide
  have htake := congrArg (List.take 5) h
  rw [List.take_append_of_le_length (hlen name hname),
    List.take_append_of_le_length (hlen name' hname')] at htake
  obtain rfl := hfive name hname name' hname' htake
  exact ⟨rfl, Csv.toDigits_inj (List.append_cancel_left h)⟩

/-- The cells of the levels of a row, in its order. -/
def cells (depth : Nat) : List (List Char × Nat) :=
  (List.range depth).flatMap fun i => levelNames.map fun name => (name, i)

theorem mem_cells {depth : Nat} {name : List Char} {i : Nat} :
    (name, i) ∈ cells depth ↔ name ∈ levelNames ∧ i < depth := by
  simp only [cells, List.mem_flatMap, List.mem_range, List.mem_map, Prod.mk.injEq]
  constructor
  · rintro ⟨j, hj, name', hname, rfl, rfl⟩
    exact ⟨hname, hj⟩
  · rintro ⟨hname, hi⟩
    exact ⟨i, hi, name, hname, rfl, rfl⟩

def cellName (cell : List Char × Nat) : List Char := cell.1 ++ digits (cell.2 + 1)

def cellText (fmt : DoubleFormat) (event : DepthUpdateEvent) (cell : List Char × Nat) : List Char :=
  let ask := levelAt event.asks event.askCount cell.2
  let bid := levelAt event.bids event.bidCount cell.2
  fmt.format (if cell.1 = "ask_price".toList then ask.price
    else if cell.1 = "ask_size".toList then ask.quantity
    else if cell.1 = "bid_price".toList then bid.price else bid.quantity)

theorem cellText_askPrice (fmt : DoubleFormat) (event : DepthUpdateEvent) (i : Nat) :
    cellText fmt event ("ask_price".toList, i) =
      fmt.format (levelAt event.asks event.askCount i).price := rfl

theorem cellText_askSize (fmt : DoubleFormat) (event : DepthUpdateEvent) (i : Nat) :
    cellText fmt event ("ask_size".toList, i) =
      fmt.format (levelAt event.asks event.askCount i).quantity := rfl

theorem cellText_bidPrice (fmt : DoubleFormat) (event : DepthUpdateEvent) (i : Nat) :
    cellText fmt event ("bid_price".toList, i) =
      fmt.format (levelAt event.bids event.bidCount i).price := rfl

theorem cellText_bidSize (fmt : DoubleFormat) (event : DepthUpdateEvent) (i : Nat) :
    cellText fmt event ("bid_size".toList, i) =
      fmt.format (levelAt event.bids event.bidCount i).quantity := rfl

theorem orderbookHeader_eq (depthLevel : UInt32) : orderbookHeader depthLevel =
    "exchange_timestamp".toList :: "local_diff".toList ::
      (cells depthLevel.toNat).map cellName := by
  rw [cells, List.map_flatMap]
  rfl

theorem orderbookFields_eq (fmt : DoubleFormat) (event : DepthUpdateEvent) (localTs : UInt64)
    (depthLevel : UInt32) : orderbookFields fmt event localTs depthLevel =
      digits event.exchangeTimestamp.toNat :: digits localTs.toNat ::
        (cells depthLevel.toNat).map (cellText fmt event) := by
  rw [cells, List.map_flatMap]
  rfl

theorem zipColumns_map {α : Type} (f g : α → List Char) (xs : List α) :
    zipColumns (xs.map f) (xs.map g) = xs.map fun x => (f x, some (g x)) := by
  induction xs with
  | nil => rfl
  | cons x xs ih => rw [List.map_cons, List.map_cons, zipColumns, ih, List.map_cons]

theorem lookup_eq_some {α β : Type} [BEq α] [LawfulBEq α] {xs : List (α × β)} {k : α} {v : β}
    (hmem : (k, v) ∈ xs) (huniq : ∀ v', (k, v') ∈ xs → v' = v) : xs.lookup k = some v := by
  induction xs with
  | nil => cases hmem
  | cons x xs ih =>
    obtain ⟨k', v'⟩ := x
    cases hk : k == k' with
    | true =>
      rw [List.lookup_cons, hk]
      exact congrArg some (huniq v' (beq_iff_eq.mp hk ▸ List.mem_cons_self))
    | false =>
      have hne : k ≠ k' := beq_eq_false_iff_ne.mp hk
      rw [List.lookup_cons, hk]
      refine ih ?_ fun v'' h => huniq v'' (List.mem_cons_of_mem _ h)
      rcases List.mem_cons.mp hmem with heq | h
      · exact absurd (congrArg Prod.fst heq) hne
      · exact h

theorem entries_orderbook (event : DepthUpdateEvent) (localTs : UInt64) (depthLevel : UInt32) :
    (dictRow (orderbookHeader depthLevel) (orderbookFields fmt event localTs depthLevel)).entries =
      ("exchange_timestamp".toList, some (digits event.exchangeTimestamp.toNat)) ::
        ("local_diff".toList, some (digits localTs.toNat)) ::
        (cells depthLevel.toNat).map fun cell =>
          (cellName cell, some (cellText fmt event cell)) := by
  rw [dictRow, orderbookHeader_eq, orderbookFields_eq, zipColumns, zipColumns, zipColumns_map]

theorem cellName_ne {name key : List Char} (hname : name ∈ levelNames)
    (hkey : key.head? ≠ some 'a' ∧ key.head? ≠ some 'b') (i : Nat) : cellName (name, i) ≠ key := by
  rintro rfl
  simp only [levelNames, List.mem_cons, List.not_mem_nil, or_false] at hname
  rcases hname with rfl | rfl | rfl | rfl
  · exact hkey.1 rfl
  · exact hkey.1 rfl
  · exact hkey.2 rfl
  · exact hkey.2 rfl

/-- A cell is found under the name of its column. -/
theorem valueD_cell (event : DepthUpdateEvent) (localTs : UInt64) {depthLevel : UInt32}
    {name : List Char} (hname : name ∈ levelNames) {i : Nat} (hi : i < depthLevel.toNat)
    (default : List Char) :
    (dictRow (orderbookHeader depthLevel)
        (orderbookFields fmt event localTs depthLevel)).valueD (cellName (name, i)) default =
      some (cellText fmt event (name, i)) := by
  rw [Row.valueD, entries_orderbook, lookup_eq_some, Option.getD_some]
  · exact List.mem_cons_of_mem _ (List.mem_cons_of_mem _
      (List.mem_map_of_mem (mem_cells.mpr ⟨hname, hi⟩)))
  · intro v hv
    rcases List.mem_cons.mp hv with heq | hv
    · exact absurd (Prod.mk.inj heq).1 (cellName_ne hname (by decide) i)
    rcases List.mem_cons.mp hv with heq | hv
    · exact absurd (Prod.mk.inj heq).1 (cellName_ne hname (by decide) i)
    obtain ⟨⟨name', j⟩, hcell, heq⟩ := List.mem_map.mp hv
    obtain ⟨hkey, rfl⟩ := Prod.mk.inj heq
    obtain ⟨rfl, hij⟩ := levelName_inj (mem_cells.mp hcell).1 hname hkey
    cases Nat.succ.inj hij
    rfl

theorem levelValues_orderbook (event : DepthUpdateEvent) (localTs : UInt64) (depthLevel : UInt32)
    {name : List Char} (hname : name ∈ levelNames) {value : Nat → Double}
    (hvalue : ∀ i, cellText fmt event (name, i) = fmt.format (value i)) :
    levelValues py (dictRow (orderbookHeader depthLevel)
        (orderbookFields fmt event localTs depthLevel)) name depthLevel.toNat =
      some ((List.range depthLevel.toNat).map fun i => py.readBack (value i)) := by
  rw [levelValues, Int.toNat_natCast]
  refine mapM_eq_some_map fun i hi => ?_
  have hcell : Row.valueD _ (name ++ digits (i + 1)) "0.0".toList =
      some (cellText fmt event (name, i)) :=
    valueD_cell event localTs hname (List.mem_range.mp hi) "0.0".toList
  rw [hcell, Option.bind_some, hvalue, py.float_format]

theorem keys_orderbook (event : DepthUpdateEvent) (localTs : UInt64) (depthLevel : UInt32) :
    (dictRow (orderbookHeader depthLevel)
        (orderbookFields fmt event localTs depthLevel)).entries.map Prod.fst =
      orderbookHeader depthLevel := by
  rw [entries_orderbook, orderbookHeader_eq, List.map_cons, List.map_cons, List.map_map]
  rfl

theorem isLevelKey_cellName {name : List Char} (hname : name ∈ levelNames) (i : Nat) :
    isLevelKey (cellName (name, i)) = true := by
  simp only [levelNames, List.mem_cons, List.not_mem_nil, or_false] at hname
  rcases hname with rfl | rfl | rfl | rfl <;> rfl

theorem filter_isLevelKey (depthLevel : UInt32) :
    (orderbookHeader depthLevel).filter isLevelKey = (cells depthLevel.toNat).map cellName := by
  rw [orderbookHeader_eq, List.filter_cons_of_neg (by decide), List.filter_cons_of_neg (by decide)]
  refine List.filter_eq_self.mpr fun key hkey => ?_
  obtain ⟨⟨name, i⟩, hcell, rfl⟩ := List.mem_map.mp hkey
  exact isLevelKey_cellName (mem_cells.mp hcell).1 i

/-- The depth is found from the names of the columns, if there are levels. -/
theorem detectDepth_orderbookHeader {depthLevel : UInt32} (h : 0 < depthLevel) :
    detectDepth py (orderbookHeader depthLevel) = some (depthLevel.toNat : Int) := by
  have hpos : 0 < depthLevel.toNat := UInt32.lt_iff_toNat_lt.mp h
  have hlevels : ((cells depthLevel.toNat).map cellName).mapM (levelNumber py) =
      some ((cells depthLevel.toNat).map fun cell => ((cell.2 + 1 : Nat) : Int)) := by
    rw [List.mapM_map]
    refine mapM_eq_some_map fun cell hcell => ?_
    obtain ⟨hname, hlt⟩ := mem_cells.mp hcell
    exact levelNumber_levelName py hname (by have := depthLevel.toNat_lt; omega)
  rw [detectDepth, filter_isLevelKey, hlevels]
  show List.max? _ = _
  rw [List.max?_eq_some_iff]
  constructor
  · refine List.mem_map.mpr ⟨("ask_price".toList, depthLevel.toNat - 1), ?_, ?_⟩
    · exact mem_cells.mpr ⟨by decide, by omega⟩
    · show ((depthLevel.toNat - 1 + 1 : Nat) : Int) = _
      rw [Nat.sub_add_cancel hpos]
  · intro level hlevel
    obtain ⟨cell, hcell, rfl⟩ := List.mem_map.mp hlevel
    have := (mem_cells.mp hcell).2
    omega

theorem parseOrderbook_eq {depth : Int} {r : Row} {ts localTs : UInt64}
    {bidPrices bidSizes askPrices askSizes : List Double}
    (hts : r.value "exchange_timestamp".toList = some (digits ts.toNat))
    (hdiff : r.value "local_diff".toList = some (digits localTs.toNat))
    (hbidPrices : levelValues py r "bid_price".toList depth = some bidPrices)
    (hbidSizes : levelValues py r "bid_size".toList depth = some bidSizes)
    (haskPrices : levelValues py r "ask_price".toList depth = some askPrices)
    (haskSizes : levelValues py r "ask_size".toList depth = some askSizes) :
    parseOrderbook py channel depth r = some ⟨ts.toNat, localTs.toNat, channel,
      (ts / kUsecsPerDay).toNat, bidPrices, bidSizes, askPrices, askSizes⟩ := by
  simp only [parseOrderbook, hts, hdiff, hbidPrices, hbidSizes, haskPrices, haskSizes,
    Option.bind_some, int_toNat, Option.bind_eq_bind, ddbDateInt_toNat]
  rfl

theorem parseOrderbook_dictRow (event : DepthUpdateEvent) (localTs : UInt64)
    (depthLevel : UInt32) :
    parseOrderbook py channel depthLevel.toNat
        (dictRow (orderbookHeader depthLevel) (orderbookFields fmt event localTs depthLevel)) =
      some (orderbookRow py channel event localTs depthLevel) := by
  have hside {name : List Char} (hname : name ∈ levelNames) {value : Nat → Double}
      (hvalue : ∀ i, cellText fmt event (name, i) = fmt.format (value i)) :=
    levelValues_orderbook py event localTs depthLevel hname hvalue
  exact parseOrderbook_eq py channel rfl rfl
    (hside (by decide) fun i => cellText_bidPrice fmt event i)
    (hside (by decide) fun i => cellText_bidSize fmt event i)
    (hside (by decide) fun i => cellText_askPrice fmt event i)
    (hside (by decide) fun i => cellText_askSize fmt event i)

/-- An order book as it was appended. -/
structure Book where
  event : DepthUpdateEvent
  localTs : UInt64
  depthLevel : UInt32

theorem parseOrderbooks_dictRow {depthLevel : UInt32} (hpos : 0 < depthLevel) {books : List Book}
    (hne : books ≠ []) (hdepth : ∀ b ∈ books, b.depthLevel = depthLevel) :
    parseOrderbooks py channel (books.map fun b => dictRow (orderbookHeader depthLevel)
        (orderbookFields fmt b.event b.localTs b.depthLevel)) =
      some (books.map fun b => orderbookRow py channel b.event b.localTs b.depthLevel) := by
  have hall : (books.map fun b => dictRow (orderbookHeader depthLevel)
      (orderbookFields fmt b.event b.localTs b.depthLevel)).mapM
        (parseOrderbook py channel depthLevel.toNat) =
      some (books.map fun b => orderbookRow py channel b.event b.localTs b.depthLevel) := by
    rw [List.mapM_map]
    refine mapM_eq_some_map fun b hb => ?_
    show parseOrderbook py channel _ (dictRow _ (orderbookFields fmt b.event b.localTs _)) = _
    rw [hdepth b hb]
    exact parseOrderbook_dictRow py channel b.event b.localTs depthLevel
  obtain ⟨b, books, rfl⟩ := List.exists_cons_of_ne_nil hne
  have hextra : (dictRow (orderbookHeader depthLevel)
      (orderbookFields fmt b.event b.localTs b.depthLevel)).extra = false := by
    rw [hdepth b List.mem_cons_self, dictRow, orderbookHeader_eq, orderbookFields_eq]
    exact decide_eq_false (by simp)
  have hkeys : (dictRow (orderbookHeader depthLevel)
      (orderbookFields fmt b.event b.localTs b.depthLevel)).entries.map Prod.fst =
        orderbookHeader depthLevel := by
    rw [hdepth b List.mem_cons_self, keys_orderbook]
  rw [List.map_cons] at hall ⊢
  rw [parseOrderbooks, hextra, if_neg nofun, hkeys, detectDepth_orderbookHeader py hpos]
  exact hall

/-! ## Whole files -/

/-- The trades of a day, in the order of the calls. -/
def ticksOf (log : List Entry) (d : UInt64) : List TickData :=
  log.filterMap fun
    | .tick data => if data.exchangeTimestamp / kUsecsPerDay = d then some data else none
    | .orderbook _ _ _ | .bookTicker _ => none

def quotesOf (log : List Entry) (d : UInt64) : List BookTickerEvent :=
  log.filterMap fun
    | .bookTicker event => if event.exchangeTimestamp / kUsecsPerDay = d then some event else none
    | .tick _ | .orderbook _ _ _ => none

def booksOf (log : List Entry) (d : UInt64) : List Book :=
  log.filterMap fun
    | .orderbook event localTs depthLevel =>
      if event.exchangeTimestamp / kUsecsPerDay = d then some ⟨event, localTs, depthLevel⟩ else none
    | .tick _ | .bookTicker _ => none

/-- The rows of a kind are those of the events that a selection finds. -/
theorem rowsOf_eq_map {α : Type} {kind : EventKind} {d : UInt64} {select : Entry → Option α}
    {fields : α → List (List Char)}
    (hselect : ∀ e : Entry,
      ((e.kind = kind ∧ e.day = d) ∧ ∃ x, select e = some x ∧ fields x = e.fields fmt) ∨
      (¬(e.kind = kind ∧ e.day = d) ∧ select e = none)) (log : List Entry) :
    rowsOf fmt log kind d = (log.filterMap select).map fields := by
  induction log with
  | nil => rfl
  | cons e log ih =>
    rw [rowsOf] at ih ⊢
    rcases hselect e with ⟨hkind, x, hx, hfields⟩ | ⟨hne, hnone⟩
    · rw [List.filter_cons, if_pos (decide_eq_true hkind), List.filterMap_cons_some hx,
        List.map_cons, List.map_cons, hfields, ih]
    · rw [List.filter_cons, if_neg (by rwa [decide_eq_true_eq]), List.filterMap_cons_none hnone, ih]

theorem rowsOf_tick (log : List Entry) (d : UInt64) :
    rowsOf fmt log .tick d = (ticksOf log d).map (tradeFields fmt) := by
  refine rowsOf_eq_map (fun e => ?_) log
  cases e with
  | tick data =>
    by_cases hday : data.exchangeTimestamp / kUsecsPerDay = d
    · exact .inl ⟨⟨rfl, hday⟩, _, if_pos hday, rfl⟩
    · exact .inr ⟨fun h => hday h.2, if_neg hday⟩
  | orderbook _ _ _ | bookTicker _ => exact .inr ⟨nofun, rfl⟩

theorem rowsOf_bookTicker (log : List Entry) (d : UInt64) :
    rowsOf fmt log .bookTicker d = (quotesOf log d).map (bookTickerFields fmt) := by
  refine rowsOf_eq_map (fun e => ?_) log
  cases e with
  | bookTicker event =>
    by_cases hday : event.exchangeTimestamp / kUsecsPerDay = d
    · exact .inl ⟨⟨rfl, hday⟩, _, if_pos hday, rfl⟩
    · exact .inr ⟨fun h => hday h.2, if_neg hday⟩
  | tick _ | orderbook _ _ _ => exact .inr ⟨nofun, rfl⟩

theorem rowsOf_depth (log : List Entry) (d : UInt64) :
    rowsOf fmt log .depth d =
      (booksOf log d).map fun b => orderbookFields fmt b.event b.localTs b.depthLevel := by
  refine rowsOf_eq_map (fun e => ?_) log
  cases e with
  | orderbook event localTs depthLevel =>
    by_cases hday : event.exchangeTimestamp / kUsecsPerDay = d
    · exact .inl ⟨⟨rfl, hday⟩, _, if_pos hday, rfl⟩
    · exact .inr ⟨fun h => hday h.2, if_neg hday⟩
  | tick _ | bookTicker _ => exact .inr ⟨nofun, rfl⟩

/-- The files of a run are imported with the values of its events. -/
structure ReadsBack (size : Int) (r : Run) : Prop where
  trades : ∀ d ≤ kLastCsvDay, Visited r.log d → ∃ text,
    r.writer.files (dayFile .tick d) = some text ∧
    importFile py (parseTrades py channel) size text =
      some ((batchIter size [] (ticksOf r.log d)).map (List.map (tradeRow py channel)))
  bookTickers : ∀ d ≤ kLastCsvDay, Visited r.log d → ∃ text,
    r.writer.files (dayFile .bookTicker d) = some text ∧
    importFile py (parseBookTickers py channel) size text =
      some ((batchIter size [] (quotesOf r.log d)).map (List.map (bookTickerRow py channel)))
  orderbooks : ∀ d ≤ kLastCsvDay, Visited r.log d → ∃ text,
    r.writer.files (dayFile .depth d) = some text ∧
    importFile py (parseOrderbooks py channel) size text =
      some ((batchIter size [] (booksOf r.log d)).map
        (List.map fun b => orderbookRow py channel b.event b.localTs b.depthLevel))

/-- An order book has levels, and the symbol of a book ticker is UTF-8 for a plain text. -/
def Importable : Entry → Prop
  | .tick _ => True
  | .orderbook _ _ depthLevel => 0 < depthLevel
  | .bookTicker event => ∃ text, Utf8.Encodes (cString event.symbol) text ∧ Csv.Plain text

theorem cell_tradeFields (tick : TickData) : ∀ f ∈ tradeFields fmt tick, Csv.Cell 32 f := by
  intro f hf
  simp only [tradeFields, List.mem_cons, List.not_mem_nil, or_false] at hf
  rcases hf with rfl | rfl | rfl | rfl | rfl
  · exact cell_digits (UInt64.toNat_lt _)
  · exact cell_digits (UInt64.toNat_lt _)
  · exact fmt.cell _
  · exact fmt.cell _
  · split <;> decide

theorem length_cString_le (symbol : SymbolChars) : (cString symbol).length ≤ 12 := by
  rw [cString, List.length_map]
  refine Nat.le_trans (List.takeWhile_sublist _).length_le ?_
  rw [Vector.length_toList]

theorem bookTickerTexts_spec {event : BookTickerEvent} (h : Importable (.bookTicker event)) :
    List.Forall₂ Utf8.Encodes (bookTickerFields fmt event) (bookTickerTexts fmt event) ∧
      Csv.PlainRow py.reader.limit (bookTickerTexts fmt event) := by
  obtain ⟨text, hencodes, hplain⟩ := h
  have hlength : text.length ≤ py.reader.limit := by
    refine Nat.le_trans hencodes.length_le (Nat.le_trans (length_cString_le event.symbol) ?_)
    exact Nat.le_trans (by decide) (le_limit py)
  have hts : Csv.Cell 32 (digits event.exchangeTimestamp.toNat) := cell_digits (UInt64.toNat_lt _)
  have hdiff : Csv.Cell 32 (digits event.localDiff.toNat) := cell_digits (UInt64.toNat_lt _)
  have hcells : ∀ f ∈ [fmt.format event.bestBidPrice, fmt.format event.bestBidQty,
      fmt.format event.bestAskPrice, fmt.format event.bestAskQty], Csv.Cell 32 f := by
    simp only [List.forall_mem_cons, fmt.cell, true_and]
    exact List.forall_mem_nil _
  rw [bookTickerTexts, hencodes.decode_eq, Option.getD_some]
  refine ⟨.cons (Utf8.encodes_ascii hts.ascii) (.cons (Utf8.encodes_ascii hdiff.ascii)
    (.cons hencodes (Csv.encodes_cells hcells))), Nat.le_add_left 2 5, ?_, ?_⟩
  · refine List.forall_mem_cons.mpr ⟨hts.plain, List.forall_mem_cons.mpr ⟨hdiff.plain,
      List.forall_mem_cons.mpr ⟨hplain, fun f hf => (hcells f hf).plain⟩⟩⟩
  · have hle {f : List Char} (hf : Csv.Cell 32 f) : f.length ≤ py.reader.limit :=
      Nat.le_trans hf.length_le (le_limit py)
    refine List.forall_mem_cons.mpr ⟨hle hts, List.forall_mem_cons.mpr ⟨hle hdiff,
      List.forall_mem_cons.mpr ⟨hlength, fun f hf => hle (hcells f hf)⟩⟩⟩

theorem mem_quotesOf {log : List Entry} {d : UInt64} {event : BookTickerEvent}
    (h : event ∈ quotesOf log d) : Entry.bookTicker event ∈ log := by
  obtain ⟨e, he, hselect⟩ := List.mem_filterMap.mp h
  cases e with
  | bookTicker event' =>
    simp only [Option.ite_none_right_eq_some] at hselect
    cases hselect.2
    exact he
  | tick _ | orderbook _ _ _ => cases hselect

theorem mem_booksOf {log : List Entry} {d : UInt64} {b : Book} (h : b ∈ booksOf log d) :
    Entry.orderbook b.event b.localTs b.depthLevel ∈ log ∧
      b.event.exchangeTimestamp / kUsecsPerDay = d := by
  obtain ⟨e, he, hselect⟩ := List.mem_filterMap.mp h
  cases e with
  | orderbook event localTs depthLevel =>
    simp only [Option.ite_none_right_eq_some] at hselect
    cases hselect.2
    exact ⟨he, hselect.1⟩
  | tick _ | bookTicker _ => cases hselect

/-- Well formed files are read back. -/
theorem readsBack_of_wellFormed {r : Run} (h : WellFormed fmt r)
    (himport : ∀ e ∈ r.log, Importable e) (size : Int) : ReadsBack py channel size r := by
  refine ⟨fun d hd hV => ⟨_, h.tick d hd hV, ?_⟩, fun d hd hV => ⟨_, h.bookTicker d hd hV, ?_⟩,
    fun d hd hV => ?_⟩
  · rw [rowsOf_tick]
    refine importFile_text py (by decide) (by decide)
      (fun tick _ => Csv.encodes_cells (cell_tradeFields tick))
      (fun tick _ => plainRow_cells py (Nat.le_add_left 2 3) (cell_tradeFields tick))
      (fun batch _ _ => ?_) size
    rw [parseTrades, List.mapM_map]
    exact mapM_eq_some_map fun tick _ => parseTrade_dictRow py channel tick
  · rw [rowsOf_bookTicker]
    have htexts (event : BookTickerEvent) (hevent : event ∈ quotesOf r.log d) :=
      bookTickerTexts_spec py (himport _ (mem_quotesOf hevent))
    refine importFile_text py (by decide) (by decide) (fun event hevent => (htexts event hevent).1)
      (fun event hevent => (htexts event hevent).2) (fun batch _ _ => ?_) size
    rw [parseBookTickers, List.mapM_map]
    exact mapM_eq_some_map fun event _ => parseBookTicker_dictRow py channel event
  · obtain ⟨depthLevel, hdepth, hfile⟩ := h.depth d hd hV
    refine ⟨_, hfile, ?_⟩
    rw [rowsOf_depth]
    have hbooks : ∀ b ∈ booksOf r.log d, b.depthLevel = depthLevel ∧ 0 < depthLevel := by
      intro b hb
      obtain ⟨hmem, hday⟩ := mem_booksOf hb
      obtain rfl := hdepth _ hmem hday
      exact ⟨rfl, himport _ hmem⟩
    have hcells (b : Book) := cell_orderbookFields fmt b.event b.localTs b.depthLevel
    refine importFile_text py (Nat.le_add_left 2 _) (cell_orderbookHeader depthLevel)
      (fun b _ => Csv.encodes_cells (hcells b))
      (fun b _ => plainRow_cells py (Nat.le_add_left 2 _) (hcells b))
      (fun batch hne hsub => ?_) size
    obtain ⟨b, hb⟩ := List.exists_mem_of_ne_nil batch hne
    exact parseOrderbooks_dictRow py channel (hbooks b (hsub b hb)).2 hne
      fun b' hb' => (hbooks b' (hsub b' hb')).1

/-- The files of a run are well formed if and only if no order book writes a header into a file that
is not empty and each day with an event has an order book. The import reads them back. -/
theorem wellFormed_iff_headerFits {depthLevel : UInt32} {as : List Action} {t : Run}
    (h : (machine fmt depthLevel).exec (machine fmt depthLevel).init as = some t) :
    (WellFormed fmt t ↔ (machine fmt depthLevel).Along HeaderFits (machine fmt depthLevel).init as ∧
      OrderbookEachDay t.log) ∧
    ((machine fmt depthLevel).Along HeaderFits (machine fmt depthLevel).init as →
      OrderbookEachDay t.log → (∀ e ∈ t.log, Importable e) →
      ∀ size, ReadsBack py channel size t) := by
  have hiff : WellFormed fmt t ↔
      (machine fmt depthLevel).Along HeaderFits (machine fmt depthLevel).init as ∧
        OrderbookEachDay t.log := by
    rw [(exec_inv h).wellFormed_iff, exec_oneHeader_iff h]
  refine ⟨hiff, fun hfits heach himport size => ?_⟩
  exact readsBack_of_wellFormed py channel (hiff.mpr ⟨hfits, heach⟩) himport size

/-! ## Runs over two days -/

def readNat (ds : List Char) : Option Nat :=
  if ds ≠ [] ∧ ds.all Char.isDigit then some (Nat.ofDigitChars 10 ds 0) else none

def readInt : List Char → Option Int
  | '-' :: ds => (readNat ds).map Int.negOfNat
  | ds => (readNat ds).map Int.ofNat

theorem readNat_digits (n : Nat) : readNat (digits n) = some n := by
  have hdigits : (digits n).all Char.isDigit = true :=
    List.all_eq_true.mpr fun c hc => Nat.isDigit_of_mem_toDigits (by decide) (by decide) hc
  rw [readNat, if_pos ⟨Nat.toDigits_ne_nil, hdigits⟩]
  exact congrArg some Nat.ofDigitChars_ten_toDigits

theorem readInt_digits (n : Nat) : readInt (digits n) = some (n : Int) := by
  unfold readInt
  split
  next ds hds =>
    have hminus : '-' ∈ digits n := hds ▸ List.mem_cons_self
    exact absurd hminus (notMem_digits rfl n)
  next =>
    rw [readNat_digits, Option.map_some]
    rfl

/-- `float` of a text, and of the bits after a mark. -/
def readFloat : List Char → Option Double
  | '#' :: ds => (readNat ds).map UInt64.ofNat
  | text => Doubles.decimal.ofNumeral text

/-- The NaN that is read for a NaN of this sign. -/
def quietNaN (x : Double) : Double :=
  if 2 ^ 63 ≤ x.toNat then 0xFFF8000000000000 else 0x7FF8000000000000

theorem readFloat_shortest (x : Double) :
    readFloat (DoubleFormat.shortest.format x) = some (if x.isNaN then quietNaN x else x) := by
  show readFloat (DoubleFormat.shortestText x) = _
  cases hnan : x.isNaN with
  | true =>
    rw [DoubleFormat.shortestText, if_pos hnan, if_pos rfl, quietNaN]
    split <;> decide
  | false =>
    rw [if_neg nofun]
    rcases DoubleFormat.shortestText_eq hnan with ⟨text, rfl, hshortest, -, hmark⟩ | htext
    · unfold readFloat
      split
      next ds hds => exact absurd (hds ▸ rfl) hmark
      next => exact Double.ofNumeral_shortest hshortest
    · rw [htext, readFloat, readNat_digits, Option.map_some, UInt64.ofNat_toNat]

/-- Python's readers for the numbers as `DoubleFormat.shortest` prints them. -/
def python : Python .shortest where
  reader := Csv.splitReader kFieldSizeLimit
  int := readInt
  float := readFloat
  readBack x := if x.isNaN then quietNaN x else x
  limit_le := Nat.le_refl _
  int_digits n _ := readInt_digits n
  int_minus_one := by decide
  float_format := readFloat_shortest
  readBack_eq x h := by rw [h, if_neg nofun]
  isNaN_readBack x := by
    cases h : x.isNaN with
    | true =>
      rw [if_pos rfl, quietNaN]
      split <;> decide
    | false => rw [if_neg nofun, h]

def emptySide : Vector PriceLevel kMaxOrderbookLevels := Vector.replicate _ ⟨0, 0⟩

/-- An order book of the day `d` with one bid, 0.25 for 42000.5. -/
def bookOn (d : UInt64) : DepthUpdateEvent :=
  ⟨1, 1, d * kUsecsPerDay, 0, Vector.replicate 12 0,
    emptySide.set 0 ⟨0x40E4821000000000, 0x3FD0000000000000⟩, emptySide, 1, 0⟩

/-- A book ticker of BTCUSDT, 0.25 for 42000.5 and 1.5 for 42001. -/
def quoteOn (d : UInt64) : BookTickerEvent :=
  ⟨1, d * kUsecsPerDay, 3, #v[66, 84, 67, 85, 83, 68, 84, 0, 0, 0, 0, 0], 0x40E4821000000000,
    0x3FD0000000000000, 0x40E4822000000000, 0x3FF8000000000000⟩

def twoDays : List Action :=
  [.appendOrderbook (bookOn 1) 7, .appendOrderbook (bookOn 1) 8, .close,
    .appendOrderbook (bookOn 2) 9, .appendBookTicker (quoteOn 1)]

instance (log : List Entry) : Decidable (OrderbookEachDay log) :=
  inferInstanceAs (Decidable (∀ e ∈ log, ∃ e' ∈ log, e'.kind = .depth ∧ e'.day = e.day))

def btcusdt : Meta := ⟨"BTCUSDT".toList, "binance".toList, "spot".toList⟩

theorem importable_quoteOn (d : UInt64) : Importable (.bookTicker (quoteOn d)) := by
  have hsymbol : cString (quoteOn d).symbol = "BTCUSDT".toList := rfl
  refine ⟨"BTCUSDT".toList, ?_, by decide⟩
  rw [hsymbol]
  exact Utf8.encodes_ascii (by decide)

theorem twoDays_readsBack :
    ∃ t, (machine .shortest 1).exec (machine .shortest 1).init twoDays = some t ∧
      t.writer.files (dayFile .bookTicker 1) = some
        ("exchange_timestamp,local_diff,symbol,best_bid_price,best_bid_qty,best_ask_price," ++
          "best_ask_qty\n86400000000,3,BTCUSDT,42000.5,0.25,42001,1.5\n").toList ∧
      t.log.length = 4 ∧ WellFormed .shortest t ∧ ReadsBack python btcusdt 5000 t := by
  have hrun : ((machine .shortest 1).exec (machine .shortest 1).init twoDays).map (fun t =>
      (t.writer.files (dayFile .bookTicker 1), decide (OrderbookEachDay t.log))) = some (some
        ("exchange_timestamp,local_diff,symbol,best_bid_price,best_bid_qty,best_ask_price," ++
          "best_ask_qty\n86400000000,3,BTCUSDT,42000.5,0.25,42001,1.5\n").toList, true) := by
    decide +kernel
  have hlog : ((machine .shortest 1).exec (machine .shortest 1).init twoDays).map (·.log) =
      some [.orderbook (bookOn 1) 7 1, .orderbook (bookOn 1) 8 1, .orderbook (bookOn 2) 9 1,
        .bookTicker (quoteOn 1)] := rfl
  obtain ⟨t, ht, hfile⟩ := Option.map_eq_some_iff.mp hrun
  obtain ⟨hfile, heach⟩ := Prod.mk.inj hfile
  rw [ht, Option.map_some, Option.some.injEq] at hlog
  have hfits : (machine .shortest 1).Along HeaderFits (machine .shortest 1).init twoDays := by
    decide +kernel
  have himport : ∀ e ∈ t.log, Importable e := by
    rw [hlog]
    simp only [List.forall_mem_cons, List.not_mem_nil, false_implies, implies_true, and_true]
    have hdepth : (0 : UInt32) < 1 := by decide
    exact ⟨hdepth, hdepth, hdepth, importable_quoteOn 1⟩
  obtain ⟨hiff, hback⟩ := wellFormed_iff_headerFits python btcusdt ht
  have heach := of_decide_eq_true heach
  exact ⟨t, ht, hfile, hlog ▸ rfl, hiff.mpr ⟨hfits, heach⟩, hback hfits heach himport 5000⟩

/-- Back on the first day, the order book file gets a second header. -/
theorem secondVisit_not_wellFormed :
    ∃ t, (machine .shortest 1).exec (machine .shortest 1).init [.appendOrderbook (bookOn 1) 7,
        .appendOrderbook (bookOn 2) 8, .appendOrderbook (bookOn 1) 9] = some t ∧
      t.writer.files (dayFile .depth 1) = some (Csv.text [orderbookHeader 1,
        orderbookFields .shortest (bookOn 1) 7 1, orderbookHeader 1,
        orderbookFields .shortest (bookOn 1) 9 1]) ∧
      ¬WellFormed .shortest t := by
  have hrun : ((machine .shortest 1).exec (machine .shortest 1).init
      [.appendOrderbook (bookOn 1) 7, .appendOrderbook (bookOn 2) 8,
        .appendOrderbook (bookOn 1) 9]).map (fun t => t.writer.files (dayFile .depth 1)) =
      some (some (Csv.text [orderbookHeader 1, orderbookFields .shortest (bookOn 1) 7 1,
        orderbookHeader 1, orderbookFields .shortest (bookOn 1) 9 1])) := by decide +kernel
  obtain ⟨t, ht, hfile⟩ := Option.map_eq_some_iff.mp hrun
  refine ⟨t, ht, hfile, fun hwf => ?_⟩
  have hfits := (exec_oneHeader_iff ht).mp ((exec_inv ht).wellFormed_iff.mp hwf).1
  revert hfits
  decide

end ImportTradeData
end Sqc
