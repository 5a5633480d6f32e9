import Mathlib.Data.List.Infix
import SmartQuantCollector.Lib.KeyedStores
import SmartQuantCollector.Storage.Backend.DolphinDBBackend
import SmartQuantCollector.Storage.ChannelRegistry
import SmartQuantCollector.Storage.Engine.CsvFiles

/-! # `CsvBackend` (`src/storage/backend/csv_backend.cpp`)

One writer for each registered channel. An event goes to the writer of its channel id, and is left
out when there is none. Every file can be opened; an event that is stored then has its line in the
file of its kind and day (`appends`). -/

namespace Sqc
open CsvWriter

namespace CsvBackend

/-- The writers by channel id, with the events that were appended to one of them. -/
abbrev State := KeyedStores.State UInt32 CsvWriter.State Item

/-- The files of a directory; the path is `output_root/exchange/market_type/symbol`. -/
abbrev Root := String → String → String → List Char → Option (List Char)

def registerChannel (root : Root) (s : State) (channelId : UInt32) (entry : ChannelMeta) : State :=
  KeyedStores.emplace s channelId (create (root entry.exchange entry.marketType entry.symbol))

/-- The call of an insert; `depthLevel` is that of the channel the router is given. -/
def entryOf (depthLevel : UInt32) : Record → Entry
  | .tick data => .tick data
  | .orderbook event localTs => .orderbook event localTs depthLevel
  | .bookTicker event => .bookTicker event

variable (fmt : DoubleFormat) (depthLevel : Nat → UInt32)

/-- `depthLevel n` comes with the event number `n`. -/
def appendItem (w : CsvWriter.State) (x : Item) : Option CsvWriter.State :=
  some (CsvWriter.append fmt w (entryOf (depthLevel x.seq) x.record))

/-- `InsertTick`, `InsertOrderbook` and `InsertBookTicker`. -/
def insert (s : State) (x : Item) : Option State :=
  KeyedStores.insert (·.record.channelId) (appendItem fmt depthLevel) s x

/-! ## The lines -/

/-- A writer with an open trade file has all its files open. -/
def AllOpen (w : CsvWriter.State) : Prop := w.tradeOpen = true → Opened w

/-- The line of an event is in the file of its kind and day, an order book with the number of levels
of the header. -/
def HasLine (w : CsvWriter.State) (x : Item) : Prop :=
  ∃ levels, Csv.line ((entryOf levels x.record).fields fmt) <:+:
    contents w.files (dayFile x.record.kind (x.record.exchangeTimestamp / kUsecsPerDay))

theorem contents_write_grows (files : List Char → Option (List Char))
    (name text name' : List Char) :
    contents files name' <+: contents (write files name text) name' := by
  rcases eq_or_ne name' name with rfl | hne
  · rw [contents, contents, write_self, Option.getD_some]
    exact List.prefix_append ..
  · rw [contents, contents, write_of_ne hne]

theorem contents_openFile_grows (files : List Char → Option (List Char))
    (name header name' : List Char) :
    contents files name' <+: contents (openFile files name header) name' :=
  contents_write_grows ..

theorem contents_rotated_grows (w : CsvWriter.State) (d : UInt64) (name : List Char) :
    contents w.files name <+: contents (rotated w d).files name := by
  unfold rotated
  split
  · exact List.prefix_rfl
  · show contents w.files name <+: contents (openDay w.files d) name
    refine (contents_openFile_grows w.files (dayFile .tick d) (headerOf .tick) name).trans ?_
    refine List.IsPrefix.trans ?_ (contents_openFile_grows ..)
    exact contents_openFile_grows ..

theorem AllOpen.rotated {w : CsvWriter.State} (h : AllOpen w) (d : UInt64) :
    Opened (rotated w d) ∧ (rotated w d).currentDateDay = d := by
  unfold CsvWriter.rotated
  split
  next hsame => exact ⟨h hsame.2, hsame.1.symm⟩
  next => exact ⟨⟨rfl, rfl, rfl⟩, rfl⟩

/-- An append writes the line of its event at the end of the file, for an order book perhaps with a
header before it. -/
theorem AllOpen.append {w : CsvWriter.State} (h : AllOpen w) (depthLevel : UInt32) (r : Record) :
    AllOpen (CsvWriter.append fmt w (entryOf depthLevel r)) ∧ ∃ levels header,
      (CsvWriter.append fmt w (entryOf depthLevel r)).files =
        write (CsvWriter.rotated w (r.exchangeTimestamp / kUsecsPerDay)).files
          (dayFile r.kind (r.exchangeTimestamp / kUsecsPerDay))
          (header ++ Csv.line ((entryOf levels r).fields fmt)) := by
  obtain ⟨hopened, hday⟩ := h.rotated (r.exchangeTimestamp / kUsecsPerDay)
  have hfile :
      fileName r.kind (CsvWriter.rotated w (r.exchangeTimestamp / kUsecsPerDay)).currentDate =
        dayFile r.kind (r.exchangeTimestamp / kUsecsPerDay) := by
    rw [hopened.date, hday]
    rfl
  rw [← hfile]
  cases r with
  | tick data =>
    simp only [entryOf, CsvWriter.append, appendTick_all]
    exact ⟨fun _ => ⟨hopened.orderbook, hopened.bookTicker, hopened.date⟩, 0, [], rfl⟩
  | bookTicker event =>
    simp only [entryOf, CsvWriter.append, appendBookTicker_all fmt rfl hopened.bookTicker]
    exact ⟨fun _ => ⟨hopened.orderbook, hopened.bookTicker, hopened.date⟩, 0, [], rfl⟩
  | orderbook event localTs =>
    simp only [entryOf, CsvWriter.append,
      appendOrderbook_all fmt localTs depthLevel rfl hopened.orderbook]
    exact ⟨fun _ => ⟨hopened.orderbook, hopened.bookTicker, hopened.date⟩, _, _, rfl⟩

/-- Every append leaves the line of its event and keeps the others. -/
theorem appends : KeyedStores.Appends (appendItem fmt depthLevel) AllOpen (HasLine fmt) := by
  intro w x hopen
  obtain ⟨hopen', levels, header, hfiles⟩ := hopen.append fmt (depthLevel x.seq) x.record
  refine ⟨_, rfl, hopen', ⟨levels, ?_⟩, ?_⟩
  · rw [hfiles, contents, write_self, Option.getD_some, ← List.append_assoc]
    exact (List.suffix_append ..).isInfix
  · rintro y ⟨levels', hline⟩
    refine ⟨levels', hline.trans ?_⟩
    rw [hfiles]
    exact ((contents_rotated_grows ..).trans (contents_write_grows ..)).isInfix

theorem allOpen_create (files : List Char → Option (List Char)) : AllOpen (create files) := nofun

end CsvBackend
end Sqc
