import SmartQuantCollector.Common.StringUtils
import SmartQuantCollector.Storage.Engine.CsvWriter

/-! # Importing CSV files (`scripts/import_trade_data.py`)

The script opens a file as UTF-8, reads it with `csv.DictReader`, in batches, and turns each batch
into columns with `parse_rows`. An exception is `none`; the columns are kept as the list of their
rows. -/

namespace Sqc
namespace ImportTradeData

/-- The default of `csv.field_size_limit`. -/
def kFieldSizeLimit : Nat := 131072

/-- What the script takes from Python: `csv.reader`, `int` and `float`. A number that was printed is
read as `readBack` of it, which is the number itself but for the bits of a NaN. -/
structure Python (fmt : DoubleFormat) where
  reader : Csv.Reader
  int : List Char → Option Int
  float : List Char → Option Double
  readBack : Double → Double
  limit_le : kFieldSizeLimit ≤ reader.limit
  int_digits : ∀ n < 2 ^ 64, int (digits n) = some (n : Int)
  int_minus_one : int "-1".toList = some (-1)
  float_format : ∀ x, float (fmt.format x) = some (readBack x)
  readBack_eq : ∀ x, x.isNaN = false → readBack x = x
  isNaN_readBack : ∀ x, (readBack x).isNaN = x.isNaN

/-! ## Rows of a file -/

/-- A row of `DictReader`: a value per column, and whether there are values beyond them. -/
structure Row where
  entries : List (List Char × Option (List Char))
  extra : Bool

/-- Values for the columns, `None` where the row is too short. -/
def zipColumns : List (List Char) → List (List Char) → List (List Char × Option (List Char))
  | [], _ => []
  | name :: names, [] => (name, none) :: zipColumns names []
  | name :: names, value :: values => (name, some value) :: zipColumns names values

def dictRow (names values : List (List Char)) : Row :=
  ⟨zipColumns names values, names.length < values.length⟩

/-- The first row has the names of the columns, and empty rows are skipped. -/
def dictReader (reader : Csv.Reader) (text : List Char) : List Row :=
  match reader.rows text with
  | [] => []
  | names :: rows => (rows.filter (· ≠ [])).map (dictRow names)

/-- `r[key]`, for a value that is then read as a number. -/
def Row.value (r : Row) (key : List Char) : Option (List Char) := (r.entries.lookup key).join

/-- `r.get(key, default)`, for a value that is then read as a number. -/
def Row.valueD (r : Row) (key default : List Char) : Option (List Char) :=
  (r.entries.lookup key).getD (some default)

def batchIter {α : Type} (size : Int) : List α → List α → List (List α)
  | batch, [] => if batch.isEmpty then [] else [batch]
  | batch, r :: rows =>
    if size ≤ (batch ++ [r]).length then (batch ++ [r]) :: batchIter size [] rows
    else batchIter size (batch ++ [r]) rows

/-! ## Parsing -/

structure Meta where
  symbol : List Char
  exchange : List Char
  marketType : List Char

def ddbDateInt (tsUs : Int) : Int := tsUs.fdiv 86400000000

structure TradeRow where
  exchangeTimestamp : Int
  localDiff : Int
  tradeId : Int
  price : Double
  quantity : Double
  direction : Int
  isBuyerMaker : Bool
  channel : Meta
  tradeDate : Int

structure BookTickerRow where
  exchangeTimestamp : Int
  localDiff : Int
  bestBidPrice : Double
  bestBidQty : Double
  bestAskPrice : Double
  bestAskQty : Double
  channel : Meta
  tradeDate : Int

structure OrderbookRow where
  exchangeTimestamp : Int
  localDiff : Int
  channel : Meta
  tradeDate : Int
  bidPrices : List Double
  bidSizes : List Double
  askPrices : List Double
  askSizes : List Double

variable {fmt : DoubleFormat} (py : Python fmt) (channel : Meta)

def parseTrade (r : Row) : Option TradeRow := do
  let ts ← (r.value "exchange_timestamp".toList).bind py.int
  let direction ← (r.value "direction".toList).bind py.int
  let localDiff ← (r.value "local_diff".toList).bind py.int
  let price ← (r.value "price".toList).bind py.float
  let quantity ← (r.value "quantity".toList).bind py.float
  return ⟨ts, localDiff, 0, price, quantity, direction, direction == -1, channel, ddbDateInt ts⟩

def parseBookTicker (r : Row) : Option BookTickerRow := do
  let ts ← (r.value "exchange_timestamp".toList).bind py.int
  let localDiff ← (r.value "local_diff".toList).bind py.int
  let bestBidPrice ← (r.value "best_bid_price".toList).bind py.float
  let bestBidQty ← (r.value "best_bid_qty".toList).bind py.float
  let bestAskPrice ← (r.value "best_ask_price".toList).bind py.float
  let bestAskQty ← (r.value "best_ask_qty".toList).bind py.float
  return ⟨ts, localDiff, bestBidPrice, bestBidQty, bestAskPrice, bestAskQty, channel, ddbDateInt ts⟩

/-- `s.replace(pat, "")`; `skip` characters of an occurrence are still to be dropped. -/
def removeAux (pat : List Char) : Nat → List Char → List Char
  | _, [] => []
  | skip + 1, _ :: s => removeAux pat skip s
  | 0, c :: s =>
    if pat.isPrefixOf (c :: s) then removeAux pat (pat.length - 1) s else c :: removeAux pat 0 s

def remove (pat s : List Char) : List Char := removeAux pat 0 s

def isLevelKey (key : List Char) : Bool :=
  "ask_".toList.isPrefixOf key || "bid_".toList.isPrefixOf key

def levelNumber (key : List Char) : Option Int :=
  py.int (remove "bid_size".toList (remove "bid_price".toList (remove "ask_size".toList
    (remove "ask_price".toList key))))

/-- The depth of a file, from the names of its columns; `max` of nothing is an error. -/
def detectDepth (keys : List (List Char)) : Option Int := do
  let levels ← (keys.filter isLevelKey).mapM (levelNumber py)
  levels.max?

/-- The values of the columns with a name and the numbers from 1 to `depth`. -/
def levelValues (r : Row) (name : List Char) (depth : Int) : Option (List Double) :=
  (List.range depth.toNat).mapM fun i =>
    (r.valueD (name ++ digits (i + 1)) "0.0".toList).bind py.float

def parseOrderbook (depth : Int) (r : Row) : Option OrderbookRow := do
  let ts ← (r.value "exchange_timestamp".toList).bind py.int
  let localDiff ← (r.value "local_diff".toList).bind py.int
  let bidPrices ← levelValues py r "bid_price".toList depth
  let bidSizes ← levelValues py r "bid_size".toList depth
  let askPrices ← levelValues py r "ask_price".toList depth
  let askSizes ← levelValues py r "ask_size".toList depth
  return ⟨ts, localDiff, channel, ddbDateInt ts, bidPrices, bidSizes, askPrices, askSizes⟩

/-- `parse_rows` for trades. -/
def parseTrades (rows : List Row) : Option (List TradeRow) := rows.mapM (parseTrade py channel)

/-- `parse_rows` for book tickers. -/
def parseBookTickers (rows : List Row) : Option (List BookTickerRow) :=
  rows.mapM (parseBookTicker py channel)

/-- `parse_rows` for order books. The names of the columns are those of the first row, where values
beyond the columns have a name that is not a text. -/
def parseOrderbooks : List Row → Option (List OrderbookRow)
  | [] => none
  | r :: rows =>
    if r.extra then none
    else do
      let depth ← detectDepth py (r.entries.map Prod.fst)
      (r :: rows).mapM (parseOrderbook py channel depth)

/-- The batches of a file, parsed one after the other. -/
def importFile {β : Type} (parse : List Row → Option β) (size : Int) (raw : List Char) :
    Option (List β) := do
  let text ← Utf8.decode raw
  (batchIter size [] (dictReader py.reader text)).mapM parse

end ImportTradeData
end Sqc
