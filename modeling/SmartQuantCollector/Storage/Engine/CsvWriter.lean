import SmartQuantCollector.Common.StringUtils
import SmartQuantCollector.Lib.Machine
import SmartQuantCollector.Storage.Engine.CsvDate

/-! # The CSV writer (`src/storage/engine/csv_writer.cpp`)

A writer has one file per kind of event and UTC day. It opens the three files of a day together,
puts the header of the trades and of the book tickers into a file that is empty, and the header of
the order books before the first order book after the files were opened, whether or not the file is
empty. A character of a file stands for a byte. -/

namespace Sqc

/-- What `fmt` prints for a `double`: a few ASCII characters, none of which separates fields. -/
structure DoubleFormat where
  format : Double → List Char
  cell : ∀ x, Csv.Cell 32 (format x)

/-- `{}` for an unsigned integer. -/
def digits (n : Nat) : List Char := Nat.toDigits 10 n

theorem cell_digits {n : Nat} (h : n < 2 ^ 64) : Csv.Cell 32 (digits n) :=
  (Csv.cell_toDigits (by decide) (Nat.lt_trans h (by decide : 2 ^ 64 < 10 ^ 20))).mono (by decide)

namespace DoubleFormat

/-- The shortest digits that are read as the double. Its bits in decimal would stand for it, after a
mark, if 17 digits were not enough. -/
def shortestText (x : Double) : List Char :=
  if x.isNaN then if 2 ^ 63 ≤ x.toNat then "-nan".toList else "nan".toList
  else
    (x.shortest.filter fun text => decide (Csv.Cell 32 text ∧ text.head? ≠ some '#')).getD
      ('#' :: digits x.toNat)

theorem shortestText_eq {x : Double} (h : x.isNaN = false) :
    (∃ text, shortestText x = text ∧ x.shortest = some text ∧ Csv.Cell 32 text ∧
      text.head? ≠ some '#') ∨ shortestText x = '#' :: digits x.toNat := by
  rw [shortestText, h, if_neg nofun]
  cases hfind : x.shortest.filter fun text =>
      decide (Csv.Cell 32 text ∧ text.head? ≠ some '#') with
  | none => exact .inr rfl
  | some text =>
    obtain ⟨hshortest, htext⟩ := Option.filter_eq_some_iff.mp hfind
    exact .inl ⟨text, rfl, hshortest, of_decide_eq_true htext⟩

/-- The format of the examples. -/
def shortest : DoubleFormat where
  format := shortestText
  cell x := by
    cases hnan : x.isNaN with
    | true =>
      rw [shortestText, if_pos hnan]
      split <;> decide
    | false =>
      rcases shortestText_eq hnan with ⟨text, rfl, -, hcell, -⟩ | htext
      · exact hcell
      · have hmark : Csv.Cell 1 ['#'] := by decide
        have hbits : Csv.Cell 20 (digits x.toNat) :=
          Csv.cell_toDigits (by decide) (Nat.lt_trans x.toNat_lt (by decide : 2 ^ 64 < 10 ^ 20))
        exact htext ▸ (hmark.append hbits).mono (by decide)

end DoubleFormat

namespace CsvWriter
open Concurrency

/-! ## Rows -/

def tradeHeader : List (List Char) :=
  ["exchange_timestamp".toList, "local_diff".toList, "price".toList, "quantity".toList,
    "direction".toList]

def bookTickerHeader : List (List Char) :=
  ["exchange_timestamp".toList, "local_diff".toList, "symbol".toList, "best_bid_price".toList,
    "best_bid_qty".toList, "best_ask_price".toList, "best_ask_qty".toList]

def orderbookHeader (depthLevel : UInt32) : List (List Char) :=
  "exchange_timestamp".toList :: "local_diff".toList ::
    (List.range depthLevel.toNat).flatMap fun i =>
      ["ask_price".toList ++ digits (i + 1), "ask_size".toList ++ digits (i + 1),
        "bid_price".toList ++ digits (i + 1), "bid_size".toList ++ digits (i + 1)]

def tradeFields (fmt : DoubleFormat) (tick : TickData) : List (List Char) :=
  [digits tick.exchangeTimestamp.toNat, digits tick.localDiff.toNat, fmt.format tick.price,
    fmt.format tick.quantity, if tick.isBuyerMaker then "-1".toList else "1".toList]

/-- The bytes of a symbol up to its terminator. -/
def cString (symbol : SymbolChars) : List Char :=
  (symbol.toList.takeWhile (· ≠ 0)).map fun byte => Char.ofNat byte.toNat

def bookTickerFields (fmt : DoubleFormat) (event : BookTickerEvent) : List (List Char) :=
  [digits event.exchangeTimestamp.toNat, digits event.localDiff.toNat, cString event.symbol,
    fmt.format event.bestBidPrice, fmt.format event.bestBidQty, fmt.format event.bestAskPrice,
    fmt.format event.bestAskQty]

/-- A level of a side, or zeros beyond its count. -/
def levelAt (levels : Vector PriceLevel kMaxOrderbookLevels) (count : UInt32) (i : Nat) :
    PriceLevel :=
  if i < count.toNat then levels.toList.getD i ⟨0, 0⟩ else ⟨0, 0⟩

def orderbookFields (fmt : DoubleFormat) (event : DepthUpdateEvent) (localTs : UInt64)
    (depthLevel : UInt32) : List (List Char) :=
  digits event.exchangeTimestamp.toNat :: digits localTs.toNat ::
    (List.range depthLevel.toNat).flatMap fun i =>
      let ask := levelAt event.asks event.askCount i
      let bid := levelAt event.bids event.bidCount i
      [fmt.format ask.price, fmt.format ask.quantity, fmt.format bid.price,
        fmt.format bid.quantity]

/-! ## The writer -/

/-- The name of a file in the directory of the writer. -/
def fileName (kind : EventKind) (date : List Char) : List Char :=
  match kind with
  | .tick => "trades_".toList ++ date ++ ".csv".toList
  | .depth => "orderbook_".toList ++ date ++ ".csv".toList
  | .bookTicker => "bookticker_".toList ++ date ++ ".csv".toList

structure State where
  /-- The files of the directory; a file that is not there has no contents. -/
  files : List Char → Option (List Char)
  tradeOpen : Bool
  orderbookOpen : Bool
  bookTickerOpen : Bool
  currentDate : List Char
  currentDateDay : UInt64
  depthLevel : UInt32
  headerWritten : Bool

def contents (files : List Char → Option (List Char)) (name : List Char) : List Char :=
  (files name).getD []

/-- Text appended to a file, which is created if it is not there. -/
def write (files : List Char → Option (List Char)) (name text : List Char) :
    List Char → Option (List Char) :=
  Function.update files name (some (contents files name ++ text))

/-- A file opened for appending, with a header if it is empty. -/
def openFile (files : List Char → Option (List Char)) (name header : List Char) :
    List Char → Option (List Char) :=
  write files name (if (contents files name).isEmpty then header else [])

/-- A writer after `Open`. -/
def create (files : List Char → Option (List Char)) : State where
  files := files
  tradeOpen := false
  orderbookOpen := false
  bookTickerOpen := false
  currentDate := []
  currentDateDay := -1
  depthLevel := 0
  headerWritten := false

def close (s : State) : State :=
  { s with
    tradeOpen := false
    orderbookOpen := false
    bookTickerOpen := false
    headerWritten := false
    depthLevel := 0 }

/-- Which of the three files can be opened. -/
structure Opens where
  trade : Bool
  orderbook : Bool
  bookTicker : Bool

def rotateIfNeeded (opens : Opens) (s : State) (exchangeTs : UInt64) : State × Bool :=
  let ts := if exchangeTs = 0 then 1 else exchangeTs
  let day := ts / kUsecsPerDay
  if day = s.currentDateDay ∧ s.tradeOpen = true then (s, true)
  else
    let s := { close s with currentDate := timestampToDate ts, currentDateDay := day }
    if !opens.trade then (s, false)
    else
      let tradeFile := fileName .tick s.currentDate
      let s := { s with
        tradeOpen := true
        files := openFile s.files tradeFile (Csv.line tradeHeader) }
      if !opens.orderbook then ({ s with tradeOpen := false }, false)
      else
        let orderbookFile := fileName .depth s.currentDate
        let s := { s with
          orderbookOpen := true
          files := openFile s.files orderbookFile []
          headerWritten :=
            if (contents s.files orderbookFile).isEmpty then false else s.headerWritten }
        if !opens.bookTicker then ({ s with tradeOpen := false, orderbookOpen := false }, false)
        else
          let bookTickerFile := fileName .bookTicker s.currentDate
          ({ s with
            bookTickerOpen := true
            files := openFile s.files bookTickerFile (Csv.line bookTickerHeader) }, true)

variable (fmt : DoubleFormat) (opens : Opens)

def appendTick (s : State) (tick : TickData) : State :=
  let (s, ok) := rotateIfNeeded opens s tick.exchangeTimestamp
  if !ok then s
  else
    let row := Csv.line (tradeFields fmt tick)
    { s with files := write s.files (fileName .tick s.currentDate) row }

def appendOrderbook (s : State) (event : DepthUpdateEvent) (localTs : UInt64)
    (depthLevel : UInt32) : State :=
  let (s, ok) := rotateIfNeeded opens s event.exchangeTimestamp
  if !ok then s
  else if !s.orderbookOpen then s
  else
    let s :=
      if s.headerWritten then s
      else
        let header := Csv.line (orderbookHeader depthLevel)
        { s with
          depthLevel := depthLevel
          headerWritten := true
          files := write s.files (fileName .depth s.currentDate) header }
    let row := Csv.line (orderbookFields fmt event localTs s.depthLevel)
    { s with files := write s.files (fileName .depth s.currentDate) row }

def appendBookTicker (s : State) (event : BookTickerEvent) : State :=
  let (s, ok) := rotateIfNeeded opens s event.exchangeTimestamp
  if !ok then s
  else if !s.bookTickerOpen then s
  else
    let row := Csv.line (bookTickerFields fmt event)
    { s with files := write s.files (fileName .bookTicker s.currentDate) row }

end CsvWriter
end Sqc
