import SmartQuantCollector.Storage.Engine.CsvWriter

/-! # The files of a CSV writer

Runs of a writer: appends with timestamps in any order, `Close`, and new writers on the same
directory, with every file opened. In every state the trades and the book tickers of a day follow
one header, and an order book leaves a line of its own behind. -/

namespace Sqc
namespace CsvWriter
open Concurrency

/-- A call that appends. An order book comes with the depth that its writer is used with. -/
inductive Entry where
  | tick (data : TickData)
  | orderbook (event : DepthUpdateEvent) (localTs : UInt64) (depthLevel : UInt32)
  | bookTicker (event : BookTickerEvent)

namespace Entry

def kind : Entry → EventKind
  | tick _ => .tick
  | orderbook _ _ _ => .depth
  | bookTicker _ => .bookTicker

def timestamp : Entry → UInt64
  | tick data => data.exchangeTimestamp
  | orderbook event _ _ => event.exchangeTimestamp
  | bookTicker event => event.exchangeTimestamp

/-- The UTC day of an event. -/
def day (e : Entry) : UInt64 := e.timestamp / kUsecsPerDay

def fields (fmt : DoubleFormat) : Entry → List (List Char)
  | tick data => tradeFields fmt data
  | orderbook event localTs depthLevel => orderbookFields fmt event localTs depthLevel
  | bookTicker event => bookTickerFields fmt event

/-- Reading the event does not leave its arrays: the counts are within them, and a symbol that is
printed ends with a terminator. -/
def Readable : Entry → Prop
  | tick _ => True
  | orderbook event _ _ =>
    event.bidCount.toNat ≤ kMaxOrderbookLevels ∧ event.askCount.toNat ≤ kMaxOrderbookLevels
  | bookTicker event => 0 ∈ event.symbol.toList

instance : ∀ e : Entry, Decidable e.Readable
  | tick _ => isTrue trivial
  | orderbook _ _ _ => inferInstanceAs (Decidable (_ ∧ _))
  | bookTicker event => inferInstanceAs (Decidable (0 ∈ event.symbol.toList))

/-- An order book is appended with the depth of the writer. -/
def OfDepth (depthLevel : UInt32) : Entry → Prop
  | tick _ | bookTicker _ => True
  | orderbook _ _ depthLevel' => depthLevel' = depthLevel

/-- An order book of a day has the given number of levels. -/
def HasDepth (d : UInt64) (depthLevel : UInt32) : Entry → Prop
  | tick _ | bookTicker _ => True
  | orderbook event _ depthLevel' => event.exchangeTimestamp / kUsecsPerDay = d →
    depthLevel' = depthLevel

end Entry

def Opens.all : Opens := ⟨true, true, true⟩

/-- The call of an entry. -/
def append (fmt : DoubleFormat) (s : State) : Entry → State
  | .tick data => appendTick fmt .all s data
  | .orderbook event localTs depthLevel => appendOrderbook fmt .all s event localTs depthLevel
  | .bookTicker event => appendBookTicker fmt .all s event

structure Run where
  writer : State
  /-- The `depth_level` that the writer is used with. -/
  depthLevel : UInt32
  /-- The appends so far, those of earlier writers included. -/
  log : List Entry

inductive Action where
  | appendTick (tick : TickData)
  | appendOrderbook (event : DepthUpdateEvent) (localTs : UInt64)
  | appendBookTicker (event : BookTickerEvent)
  | close
  | recreate (depthLevel : UInt32)

def record (fmt : DoubleFormat) (r : Run) (e : Entry) : Option Run :=
  if e.day ≤ kLastCsvDay ∧ e.Readable then some ⟨append fmt r.writer e, r.depthLevel, r.log ++ [e]⟩
  else none

def step (fmt : DoubleFormat) (r : Run) : Action → Option Run
  | .appendTick tick => record fmt r (.tick tick)
  | .appendOrderbook event localTs => record fmt r (.orderbook event localTs r.depthLevel)
  | .appendBookTicker event => record fmt r (.bookTicker event)
  | .close => some { r with writer := CsvWriter.close r.writer }
  | .recreate depthLevel => some ⟨create r.writer.files, depthLevel, r.log⟩

/-- A first writer on an empty directory. -/
def machine (fmt : DoubleFormat) (depthLevel : UInt32) : Machine Run Action where
  init := ⟨create fun _ => none, depthLevel, []⟩
  step := step fmt

/-! ## What the files should hold -/

def dayFile (kind : EventKind) (d : UInt64) : List Char := fileName kind (dateText d)

/-- The rows of a kind and a day, in the order of the calls. -/
def rowsOf (fmt : DoubleFormat) (log : List Entry) (kind : EventKind) (d : UInt64) :
    List (List (List Char)) :=
  (log.filter fun e => e.kind = kind ∧ e.day = d).map (Entry.fields fmt)

def Visited (log : List Entry) (d : UInt64) : Prop := ∃ e ∈ log, e.day = d

/-- The file of the order books of a day is one header and the rows; the header has the number of
levels of the rows. -/
def Headed (fmt : DoubleFormat) (files : List Char → Option (List Char)) (log : List Entry)
    (d : UInt64) : Prop :=
  ∃ depthLevel, (∀ e ∈ log, e.HasDepth d depthLevel) ∧ files (dayFile .depth d) =
    some (Csv.text (orderbookHeader depthLevel :: rowsOf fmt log .depth d))

/-- The files are those of the days with events, each of them one header and the rows of its kind
and day. -/
structure WellFormed (fmt : DoubleFormat) (r : Run) : Prop where
  absent : ∀ d ≤ kLastCsvDay, ¬Visited r.log d → ∀ kind, r.writer.files (dayFile kind d) = none
  tick : ∀ d ≤ kLastCsvDay, Visited r.log d → r.writer.files (dayFile .tick d) =
    some (Csv.text (tradeHeader :: rowsOf fmt r.log .tick d))
  bookTicker : ∀ d ≤ kLastCsvDay, Visited r.log d → r.writer.files (dayFile .bookTicker d) =
    some (Csv.text (bookTickerHeader :: rowsOf fmt r.log .bookTicker d))
  depth : ∀ d ≤ kLastCsvDay, Visited r.log d → Headed fmt r.writer.files r.log d

/-- An order book does not have to write the header into a file that is not empty. -/
def HeaderFits (r : Run) : Action → Prop
  | .appendOrderbook event _ =>
    let w := (rotateIfNeeded .all r.writer event.exchangeTimestamp).1
    w.headerWritten = true ∨ contents w.files (fileName .depth w.currentDate) = []
  | _ => True

instance (r : Run) : ∀ a, Decidable (HeaderFits r a)
  | .appendOrderbook _ _ => inferInstanceAs (Decidable (_ ∨ _))
  | .appendTick _ | .appendBookTicker _ | .close | .recreate _ => isTrue trivial

/-- Each day with an event has an order book. -/
def OrderbookEachDay (log : List Entry) : Prop :=
  ∀ e ∈ log, ∃ e' ∈ log, e'.kind = .depth ∧ e'.day = e.day

/-! ## File names -/

theorem fileName_inj {kind kind' : EventKind} {date date' : List Char}
    (h : fileName kind date = fileName kind' date') : kind = kind' ∧ date = date' := by
  have hcancel {p s : List Char} (h : p ++ date ++ s = p ++ date' ++ s) : date = date' :=
    List.append_cancel_left (List.append_cancel_right h)
  cases kind <;> cases kind'
  case tick.tick | depth.depth | bookTicker.bookTicker => exact ⟨rfl, hcancel h⟩
  all_goals exact absurd (List.cons.inj h).1 (by decide)

theorem dayFile_inj {kind kind' : EventKind} {d d' : UInt64} (h : d ≤ kLastCsvDay)
    (h' : d' ≤ kLastCsvDay) (heq : dayFile kind d = dayFile kind' d') : kind = kind' ∧ d = d' := by
  obtain ⟨hkind, hdate⟩ := fileName_inj heq
  exact ⟨hkind, dateText_inj h h' hdate⟩

theorem dayFile_kind_ne {kind kind' : EventKind} (d : UInt64) (h : kind ≠ kind') :
    dayFile kind d ≠ dayFile kind' d :=
  fun heq => h (fileName_inj heq).1

variable {files : List Char → Option (List Char)} {name name' : List Char}

theorem write_self (files : List Char → Option (List Char)) (name text : List Char) :
    write files name text name = some (contents files name ++ text) :=
  Function.update_self ..

theorem write_of_ne (h : name' ≠ name) (text : List Char) :
    write files name text name' = files name' :=
  Function.update_of_ne h ..

theorem write_write (files : List Char → Option (List Char)) (name text text' : List Char) :
    write (write files name text) name text' = write files name (text ++ text') := by
  rw [write, contents, write_self, Option.getD_some, write, Function.update_idem, List.append_assoc]
  rfl

/-! ## Opening the files of a day -/

/-- The header that goes into a file which is opened empty. -/
def headerOf : EventKind → List Char
  | .tick => Csv.line tradeHeader
  | .depth => []
  | .bookTicker => Csv.line bookTickerHeader

def openDay (files : List Char → Option (List Char)) (d : UInt64) :
    List Char → Option (List Char) :=
  openFile (openFile (openFile files (dayFile .tick d) (headerOf .tick)) (dayFile .depth d)
    (headerOf .depth)) (dayFile .bookTicker d) (headerOf .bookTicker)

/-- The contents of a file once it is open. -/
def opened (file : Option (List Char)) (header : List Char) : List Char :=
  file.getD [] ++ if (file.getD []).isEmpty then header else []

theorem openFile_self (files : List Char → Option (List Char)) (name header : List Char) :
    openFile files name header name = some (opened (files name) header) :=
  write_self ..

theorem openFile_of_ne (h : name' ≠ name) (header : List Char) :
    openFile files name header name' = files name' :=
  write_of_ne h _

theorem openDay_self (files : List Char → Option (List Char)) (kind : EventKind) (d : UInt64) :
    openDay files d (dayFile kind d) = some (opened (files (dayFile kind d)) (headerOf kind)) := by
  have htd := dayFile_kind_ne d (by decide : EventKind.tick ≠ .depth)
  have htb := dayFile_kind_ne d (by decide : EventKind.tick ≠ .bookTicker)
  have hdb := dayFile_kind_ne d (by decide : EventKind.depth ≠ .bookTicker)
  cases kind with
  | tick => rw [openDay, openFile_of_ne htb, openFile_of_ne htd, openFile_self]
  | depth => rw [openDay, openFile_of_ne hdb, openFile_self, openFile_of_ne htd.symm]
  | bookTicker => rw [openDay, openFile_self, openFile_of_ne hdb.symm, openFile_of_ne htb.symm]

theorem openDay_of_ne {d : UInt64} (h : ∀ kind, name ≠ dayFile kind d) :
    openDay files d name = files name := by
  rw [openDay, openFile_of_ne (h _), openFile_of_ne (h _), openFile_of_ne (h _)]

theorem opened_of_ne_nil {text : List Char} (h : text ≠ []) (header : List Char) :
    opened (some text) header = text := by
  rw [opened, Option.getD_some, if_neg (by rwa [List.isEmpty_iff]), List.append_nil]

theorem opened_nil_header (file : Option (List Char)) : opened file [] = file.getD [] := by
  rw [opened, ite_self, List.append_nil]

/-- The writer after `RotateIfNeeded` with every file opened. -/
def rotated (s : State) (d : UInt64) : State :=
  if d = s.currentDateDay ∧ s.tradeOpen = true then s
  else
    { files := openDay s.files d
      tradeOpen := true
      orderbookOpen := true
      bookTickerOpen := true
      currentDate := dateText d
      currentDateDay := d
      depthLevel := 0
      headerWritten := false }

theorem rotateIfNeeded_all (s : State) (ts : UInt64) :
    rotateIfNeeded .all s ts = (rotated s (ts / kUsecsPerDay), true) := by
  have hday : (if ts = 0 then 1 else ts) / kUsecsPerDay = ts / kUsecsPerDay := by
    split
    next h =>
      rw [h]
      decide
    next => rfl
  simp only [rotateIfNeeded, rotated, timestampToDate, hday]
  split
  next => rfl
  next =>
    simp only [Opens.all, Bool.not_true, Bool.false_eq_true, if_false, close]
    congr 2
    exact ite_self _

/-! ## The appends after the rotation -/

theorem appendTick_all (fmt : DoubleFormat) (s : State) (data : TickData) :
    appendTick fmt .all s data =
      let w := rotated s (data.exchangeTimestamp / kUsecsPerDay)
      { w with
        files := write w.files (fileName .tick w.currentDate)
          (Csv.line (tradeFields fmt data)) } := by
  rw [appendTick, rotateIfNeeded_all]
  rfl

theorem appendBookTicker_all (fmt : DoubleFormat) {s w : State} {event : BookTickerEvent}
    (hw : rotated s (event.exchangeTimestamp / kUsecsPerDay) = w)
    (hopen : w.bookTickerOpen = true) :
    appendBookTicker fmt .all s event = { w with
      files := write w.files (fileName .bookTicker w.currentDate)
        (Csv.line (bookTickerFields fmt event)) } := by
  rw [appendBookTicker, rotateIfNeeded_all]
  simp only [hw, hopen, Bool.not_true, Bool.false_eq_true, if_false]

/-- The number of levels that a row gets: that of the header. -/
def rowLevels (w : State) (depthLevel : UInt32) : UInt32 :=
  if w.headerWritten then w.depthLevel else depthLevel

theorem appendOrderbook_all (fmt : DoubleFormat) {s w : State} {event : DepthUpdateEvent}
    (localTs : UInt64) (depthLevel : UInt32)
    (hw : rotated s (event.exchangeTimestamp / kUsecsPerDay) = w)
    (hopen : w.orderbookOpen = true) :
    appendOrderbook fmt .all s event localTs depthLevel = { w with
      files := write w.files (fileName .depth w.currentDate)
        ((if w.headerWritten then [] else Csv.line (orderbookHeader depthLevel)) ++
          Csv.line (orderbookFields fmt event localTs (rowLevels w depthLevel)))
      depthLevel := rowLevels w depthLevel
      headerWritten := true } := by
  rw [appendOrderbook, rotateIfNeeded_all]
  simp only [hw, hopen, Bool.not_true, Bool.false_eq_true, if_false, rowLevels]
  split
  next hwritten => simp only [hwritten, hopen, List.nil_append]
  next => rw [write_write]

/-! ## Rows of the log -/

variable {fmt : DoubleFormat} {log : List Entry} {e : Entry}

theorem rowsOf_append_self (fmt : DoubleFormat) (log : List Entry) (e : Entry) :
    rowsOf fmt (log ++ [e]) e.kind e.day = rowsOf fmt log e.kind e.day ++ [e.fields fmt] := by
  rw [rowsOf, List.filter_append, List.map_append, List.filter_singleton]
  simp only [and_self, decide_true]
  rfl

theorem rowsOf_append_of_ne {kind : EventKind} {d : UInt64} (h : ¬(e.kind = kind ∧ e.day = d)) :
    rowsOf fmt (log ++ [e]) kind d = rowsOf fmt log kind d := by
  rw [rowsOf, List.filter_append, List.map_append, List.filter_singleton, decide_eq_false h]
  exact List.append_nil _

theorem rowsOf_eq_nil {kind : EventKind} {d : UInt64} (h : ¬Visited log d) :
    rowsOf fmt log kind d = [] := by
  rw [rowsOf, List.map_eq_nil_iff, List.filter_eq_nil_iff]
  intro e he hday
  exact h ⟨e, he, (of_decide_eq_true hday).2⟩

theorem rowsOf_ne_nil (he : e ∈ log) : rowsOf fmt log e.kind e.day ≠ [] := by
  rw [rowsOf, ne_eq, List.map_eq_nil_iff, List.filter_eq_nil_iff]
  exact fun h => h e he (decide_eq_true ⟨rfl, rfl⟩)

theorem exists_of_rowsOf_ne_nil {kind : EventKind} {d : UInt64} (h : rowsOf fmt log kind d ≠ []) :
    ∃ e ∈ log, e.kind = kind ∧ e.day = d := by
  rw [rowsOf, ne_eq, List.map_eq_nil_iff] at h
  obtain ⟨e, he⟩ := List.exists_mem_of_ne_nil _ h
  obtain ⟨hmem, hkind⟩ := List.mem_filter.mp he
  exact ⟨e, hmem, of_decide_eq_true hkind⟩

theorem cell_orderbookFields (fmt : DoubleFormat) (event : DepthUpdateEvent) (localTs : UInt64)
    (depthLevel : UInt32) : ∀ f ∈ orderbookFields fmt event localTs depthLevel, Csv.Cell 32 f := by
  intro f hf
  rcases List.mem_cons.mp hf with rfl | hf
  · exact cell_digits (UInt64.toNat_lt _)
  rcases List.mem_cons.mp hf with rfl | hf
  · exact cell_digits (UInt64.toNat_lt _)
  obtain ⟨i, -, hf⟩ := List.mem_flatMap.mp hf
  simp only [List.mem_cons, List.not_mem_nil, or_false] at hf
  rcases hf with rfl | rfl | rfl | rfl <;> exact fmt.cell _

theorem cell_orderbookHeader (depthLevel : UInt32) :
    ∀ f ∈ orderbookHeader depthLevel, Csv.Cell 32 f := by
  intro f hf
  rcases List.mem_cons.mp hf with rfl | hf
  · decide
  rcases List.mem_cons.mp hf with rfl | hf
  · decide
  obtain ⟨i, hi, hf⟩ := List.mem_flatMap.mp hf
  have hlevel : i + 1 < 10 ^ 10 :=
    Nat.lt_of_le_of_lt (List.mem_range.mp hi) (Nat.lt_trans depthLevel.toNat_lt (by decide))
  have hname {name : List Char} (h : Csv.Cell 22 name) : Csv.Cell 32 (name ++ digits (i + 1)) :=
    h.append (Csv.cell_toDigits (by decide) hlevel)
  simp only [List.mem_cons, List.not_mem_nil, or_false] at hf
  rcases hf with rfl | rfl | rfl | rfl <;> exact hname (by decide)

theorem plain_rowsOf_depth (fmt : DoubleFormat) (log : List Entry) (d : UInt64) :
    ∀ row ∈ rowsOf fmt log .depth d, ∀ f ∈ row, Csv.Plain f := by
  intro row hrow
  obtain ⟨e, he, rfl⟩ := List.mem_map.mp hrow
  have hkind := (of_decide_eq_true (List.mem_filter.mp he).2).1
  cases e with
  | orderbook event localTs depthLevel =>
    exact fun f hf => (cell_orderbookFields fmt event localTs depthLevel f hf).plain
  | tick _ | bookTicker _ => cases hkind

theorem plain_orderbookHeader (depthLevel : UInt32) :
    ∀ f ∈ orderbookHeader depthLevel, Csv.Plain f :=
  fun f hf => (cell_orderbookHeader depthLevel f hf).plain

/-! ## The invariant -/

/-- What the files hold in every state, with `V` the days whose files have been opened. -/
structure FilesOk (fmt : DoubleFormat) (V : UInt64 → Prop) (log : List Entry)
    (files : List Char → Option (List Char)) : Prop where
  absent : ∀ {d}, d ≤ kLastCsvDay → ¬V d → ∀ kind, files (dayFile kind d) = none
  present : ∀ {d}, d ≤ kLastCsvDay → V d → ∀ kind ≠ .depth,
    files (dayFile kind d) = some (headerOf kind ++ Csv.text (rowsOf fmt log kind d))
  depth : ∀ {d}, d ≤ kLastCsvDay → V d → ∃ text, files (dayFile .depth d) = some text ∧
    (rowsOf fmt log .depth d = [] → text = []) ∧
    (rowsOf fmt log .depth d ≠ [] → (rowsOf fmt log .depth d).length < text.count '\n')

theorem headerOf_append_ne_nil {kind : EventKind} (h : kind ≠ .depth) (text : List Char) :
    headerOf kind ++ text ≠ [] := by
  refine List.append_ne_nil_of_left_ne_nil ?_ _
  cases kind with
  | tick | bookTicker => exact Csv.line_ne_nil _
  | depth => exact absurd rfl h

variable {V : UInt64 → Prop}

theorem FilesOk.openDay {d : UInt64} (h : FilesOk fmt V log files) (hd : d ≤ kLastCsvDay)
    (hrows : ¬V d → ∀ kind, rowsOf fmt log kind d = []) :
    FilesOk fmt (fun d' => V d' ∨ d' = d) log (openDay files d) := by
  have hother {d' : UInt64} (hd' : d' ≤ kLastCsvDay) (hne : d' ≠ d) (kind : EventKind) :
      CsvWriter.openDay files d (dayFile kind d') = files (dayFile kind d') :=
    openDay_of_ne fun kind' heq => hne (dayFile_inj hd' hd heq).2
  refine ⟨fun {d'} hd' hV kind => ?_, fun {d'} hd' hV kind hkind => ?_, fun {d'} hd' hV => ?_⟩
  · rw [hother hd' (fun heq => hV (.inr heq))]
    exact h.absent hd' (fun hV' => hV (.inl hV')) kind
  · rcases eq_or_ne d' d with rfl | hne
    · rw [openDay_self]
      rcases Classical.em (V d') with hV' | hV'
      · rw [h.present hd' hV' kind hkind, opened_of_ne_nil (headerOf_append_ne_nil hkind _)]
      · rw [h.absent hd' hV', hrows hV']
        exact congrArg some (List.append_nil _).symm
    · rw [hother hd' hne]
      exact h.present hd' (hV.resolve_right hne) kind hkind
  · rcases eq_or_ne d' d with rfl | hne
    · rw [openDay_self, headerOf, opened_nil_header]
      rcases Classical.em (V d') with hV' | hV'
      · obtain ⟨text, htext, hrest⟩ := h.depth hd' hV'
        exact ⟨text, by rw [htext, Option.getD_some], hrest⟩
      · refine ⟨[], by rw [h.absent hd' hV', Option.getD_none], fun _ => rfl, fun hne => ?_⟩
        exact absurd (hrows hV' .depth) hne
    · rw [hother hd' hne]
      exact h.depth hd' (hV.resolve_right hne)

/-- A row is appended, for an order book perhaps with a header before it. -/
theorem FilesOk.write {header : List Char} (h : FilesOk fmt V log files) (hV : V e.day)
    (hday : e.day ≤ kLastCsvDay) (hheader : e.kind ≠ .depth → header = [])
    (hdepth : e.kind = .depth →
      header.count '\n' = 1 ∨ rowsOf fmt log .depth e.day ≠ [] ∧ header = []) :
    FilesOk fmt V (log ++ [e])
      (write files (dayFile e.kind e.day) (header ++ Csv.line (e.fields fmt))) := by
  have hother {kind : EventKind} {d : UInt64} (hd : d ≤ kLastCsvDay)
      (hne : ¬(e.kind = kind ∧ e.day = d)) :
      CsvWriter.write files (dayFile e.kind e.day) (header ++ Csv.line (e.fields fmt))
        (dayFile kind d) = files (dayFile kind d) := by
    refine write_of_ne (fun heq => hne ?_) _
    obtain ⟨hkind, hd'⟩ := dayFile_inj hd hday heq
    exact ⟨hkind.symm, hd'.symm⟩
  refine ⟨fun {d} hd hVd kind => ?_, fun {d} hd hVd kind hkind => ?_, fun {d} hd hVd => ?_⟩
  · rw [hother hd fun heq => hVd (heq.2 ▸ hV)]
    exact h.absent hd hVd kind
  · rcases Classical.em (e.kind = kind ∧ e.day = d) with ⟨rfl, rfl⟩ | hne
    · rw [write_self, contents, h.present hd hVd _ hkind, hheader hkind, rowsOf_append_self,
        Csv.text_append, Option.getD_some, List.append_assoc, List.nil_append]
      exact congrArg some (congrArg _ (congrArg _ (List.append_nil _).symm))
    · rw [hother hd hne, rowsOf_append_of_ne hne]
      exact h.present hd hVd kind hkind
  · rcases Classical.em (e.kind = .depth ∧ e.day = d) with ⟨hkind, rfl⟩ | hne
    · obtain ⟨text, htext, hnil, hcount⟩ := h.depth hd hVd
      have hself := rowsOf_append_self fmt log e
      rw [hkind] at hself ⊢
      refine ⟨_, write_self .., fun hrows => ?_, fun _ => ?_⟩
      · rw [hself] at hrows
        exact absurd hrows (List.append_ne_nil_of_right_ne_nil _ (List.cons_ne_nil _ _))
      · have hrow : (Csv.line (e.fields fmt)).count '\n' = 1 := by
          refine Csv.count_line (plain_rowsOf_depth fmt (log ++ [e]) e.day _ ?_)
          rw [hself]
          exact List.mem_concat_self
        rw [contents, htext, Option.getD_some, hself, List.length_append, List.length_singleton,
          List.count_append, List.count_append, hrow]
        rcases Classical.em (rowsOf fmt log .depth e.day = []) with hempty | hrows
        · rcases hdepth hkind with hone | ⟨hne, -⟩
          · rw [hempty, hone, List.length_nil]
            omega
          · exact absurd hempty hne
        · have := hcount hrows
          omega
    · rw [hother hd hne, rowsOf_append_of_ne hne]
      exact h.depth hd hVd

/-- A writer whose files are open. -/
structure Opened (s : State) : Prop where
  orderbook : s.orderbookOpen = true
  bookTicker : s.bookTickerOpen = true
  date : s.currentDate = dateText s.currentDateDay

/-- The header that a writer has written is that of an order book of its own. -/
def HeaderOwn (r : Run) (s : State) : Prop :=
  s.headerWritten = true → s.depthLevel = r.depthLevel ∧
    ∃ event localTs, Entry.orderbook event localTs r.depthLevel ∈ r.log ∧
      event.exchangeTimestamp / kUsecsPerDay = s.currentDateDay

structure Inv (fmt : DoubleFormat) (r : Run) : Prop where
  files : FilesOk fmt (Visited r.log) r.log r.writer.files
  inRange : ∀ e ∈ r.log, e.day ≤ kLastCsvDay
  opened : r.writer.tradeOpen = true → Opened r.writer ∧ Visited r.log r.writer.currentDateDay
  header : r.writer.tradeOpen = true → HeaderOwn r r.writer

variable {r t : Run}

/-- The writer after `RotateIfNeeded`. -/
structure Ready (fmt : DoubleFormat) (r : Run) (d : UInt64) (w : State) : Prop where
  tradeOpen : w.tradeOpen = true
  opened : Opened w
  day : w.currentDateDay = d
  files : FilesOk fmt (fun d' => Visited r.log d' ∨ d' = d) r.log w.files
  /-- The order books of the days that have been opened before are not touched. -/
  same : ∀ {d'}, d' ≤ kLastCsvDay → Visited r.log d' →
    w.files (dayFile .depth d') = r.writer.files (dayFile .depth d')
  header : HeaderOwn r w

theorem Inv.ready {d : UInt64} (h : Inv fmt r) (hd : d ≤ kLastCsvDay) :
    Ready fmt r d (rotated r.writer d) := by
  unfold rotated
  split
  next hsame =>
    obtain ⟨rfl, hopen⟩ := hsame
    obtain ⟨hopened, hvisited⟩ := h.opened hopen
    refine ⟨hopen, hopened, rfl, ?_, fun _ _ => rfl, h.header hopen⟩
    have hV : (fun d' => Visited r.log d' ∨ d' = r.writer.currentDateDay) = Visited r.log := by
      funext d'
      refine propext ⟨fun hor => hor.elim id (fun heq => heq ▸ hvisited), .inl⟩
    rw [hV]
    exact h.files
  next =>
    refine ⟨rfl, ⟨rfl, rfl, rfl⟩, rfl, ?_, fun {d'} hd' hvisited => ?_, nofun⟩
    · exact h.files.openDay hd fun hV kind => rowsOf_eq_nil hV
    · dsimp only
      rcases eq_or_ne d' d with rfl | hne
      · obtain ⟨text, htext, -⟩ := h.files.depth hd' hvisited
        rw [openDay_self, headerOf, opened_nil_header, htext, Option.getD_some]
      · exact openDay_of_ne fun kind' heq => hne (dayFile_inj hd' hd heq).2

/-! ## Appends -/

/-- The header that an append writes before its row. -/
def headerFor (w : State) : Entry → List Char
  | .orderbook _ _ depthLevel =>
    if w.headerWritten then [] else Csv.line (orderbookHeader depthLevel)
  | .tick _ | .bookTicker _ => []

/-- The writer after an append, from the writer `w` after `RotateIfNeeded`. -/
structure Appended (fmt : DoubleFormat) (r : Run) (e : Entry) (w w' : State) : Prop where
  files : w'.files =
    write w.files (dayFile e.kind e.day) (headerFor w e ++ Csv.line (e.fields fmt))
  tradeOpen : w'.tradeOpen = true
  opened : Opened w'
  day : w'.currentDateDay = e.day
  header : HeaderOwn ⟨w', r.depthLevel, r.log ++ [e]⟩ w'

theorem HeaderOwn.log_append {s : State} (h : HeaderOwn r s) (e : Entry) (w : State) :
    HeaderOwn ⟨w, r.depthLevel, r.log ++ [e]⟩ s := by
  intro hwritten
  obtain ⟨hdepth, event, localTs, hmem, hday⟩ := h hwritten
  exact ⟨hdepth, event, localTs, List.mem_append_left _ hmem, hday⟩

/-- An append that writes the row of its event and no header. -/
theorem Ready.writeRow {w : State} (h : Ready fmt r e.day w) (hheader : headerFor w e = []) :
    Appended fmt r e w { w with
      files := CsvWriter.write w.files (fileName e.kind w.currentDate)
        (Csv.line (e.fields fmt)) } := by
  refine ⟨?_, h.tradeOpen, ⟨h.opened.orderbook, h.opened.bookTicker, h.opened.date⟩, h.day,
    h.header.log_append _ _⟩
  rw [h.opened.date, h.day, hheader]
  rfl

theorem Ready.appendTick {data : TickData} {w : State} (h : Ready fmt r (Entry.tick data).day w)
    (hw : rotated r.writer (Entry.tick data).day = w) :
    Appended fmt r (.tick data) w (appendTick fmt .all r.writer data) := by
  subst hw
  rw [appendTick_all]
  exact h.writeRow rfl

theorem Ready.appendBookTicker {event : BookTickerEvent} {w : State}
    (h : Ready fmt r (Entry.bookTicker event).day w)
    (hw : rotated r.writer (Entry.bookTicker event).day = w) :
    Appended fmt r (.bookTicker event) w (appendBookTicker fmt .all r.writer event) := by
  rw [appendBookTicker_all fmt hw h.opened.bookTicker]
  exact h.writeRow rfl

theorem Ready.appendOrderbook {event : DepthUpdateEvent} {localTs : UInt64} {w : State}
    (h : Ready fmt r (Entry.orderbook event localTs r.depthLevel).day w)
    (hw : rotated r.writer (Entry.orderbook event localTs r.depthLevel).day = w) :
    Appended fmt r (.orderbook event localTs r.depthLevel) w
      (appendOrderbook fmt .all r.writer event localTs r.depthLevel) := by
  -- a header that was written has the depth of the writer
  have hlevels : rowLevels w r.depthLevel = r.depthLevel := by
    unfold rowLevels
    split
    next hwritten => exact (h.header hwritten).1
    next => rfl
  rw [appendOrderbook_all fmt localTs r.depthLevel hw h.opened.orderbook, hlevels]
  refine ⟨?_, h.tradeOpen, ⟨h.opened.orderbook, h.opened.bookTicker, h.opened.date⟩, h.day,
    fun _ => ⟨rfl, event, localTs, List.mem_concat_self, h.day.symm⟩⟩
  rw [h.opened.date, h.day]
  rfl

theorem Ready.append (h : Ready fmt r e.day (rotated r.writer e.day))
    (hdepth : e.OfDepth r.depthLevel) :
    Appended fmt r e (rotated r.writer e.day) (append fmt r.writer e) := by
  cases e with
  | tick data => exact h.appendTick rfl
  | bookTicker event => exact h.appendBookTicker rfl
  | orderbook event localTs depthLevel =>
    cases hdepth
    exact h.appendOrderbook rfl

theorem headerFor_of_ne {w : State} (h : e.kind ≠ .depth) : headerFor w e = [] := by
  cases e with
  | tick _ | bookTicker _ => rfl
  | orderbook _ _ _ => exact absurd rfl h

theorem visited_append (log : List Entry) (e : Entry) :
    Visited (log ++ [e]) = fun d => Visited log d ∨ d = e.day := by
  funext d
  refine propext ⟨?_, ?_⟩
  · rintro ⟨e', he', rfl⟩
    rcases List.mem_append.mp he' with he' | he'
    · exact .inl ⟨e', he', rfl⟩
    · cases List.mem_singleton.mp he'
      exact .inr rfl
  · rintro (⟨e', he', rfl⟩ | rfl)
    · exact ⟨e', List.mem_append_left _ he', rfl⟩
    · exact ⟨e, List.mem_concat_self, rfl⟩

theorem Inv.append (h : Inv fmt r) (hday : e.day ≤ kLastCsvDay) (hdepth : e.OfDepth r.depthLevel) :
    Inv fmt ⟨append fmt r.writer e, r.depthLevel, r.log ++ [e]⟩ := by
  have hw := h.ready hday
  have happ := hw.append hdepth
  refine ⟨?_, ?_, fun _ => ⟨happ.opened, e, List.mem_concat_self, happ.day.symm⟩,
    fun _ => happ.header⟩
  case refine_2 =>
    exact List.forall_mem_append.mpr ⟨h.inRange, List.forall_mem_singleton.mpr hday⟩
  rw [visited_append, happ.files]
  refine hw.files.write (.inr rfl) hday headerFor_of_ne fun hkind => ?_
  cases e with
  | tick _ | bookTicker _ => cases hkind
  | orderbook event localTs depthLevel =>
    rw [headerFor]
    split
    next hwritten =>
      obtain ⟨-, event', localTs', hmem, hday'⟩ := hw.header hwritten
      have hrows : rowsOf fmt r.log .depth (event'.exchangeTimestamp / kUsecsPerDay) ≠ [] :=
        rowsOf_ne_nil hmem
      exact .inr ⟨hday'.trans hw.day ▸ hrows, rfl⟩
    next => exact .inl (Csv.count_line (plain_orderbookHeader depthLevel))

end CsvWriter
end Sqc
