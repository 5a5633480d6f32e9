import SmartQuantCollector.Storage.Engine.CsvFiles

/-! # The header of the order book files

`Close` forgets that the header of an order book file was written, and opening a file that is not
empty does not remember it. The files of a run are well formed if and only if no order book comes to
a file with rows in that state, and each day with an event has an order book
(`Inv.wellFormed_iff`, `exec_oneHeader_iff`). -/

namespace Sqc
namespace CsvWriter
open Concurrency

variable {fmt : DoubleFormat} {log : List Entry} {e : Entry} {r t : Run}
  {files : List Char → Option (List Char)}

/-! ## One header -/

/-- Each day with order books has one header. -/
def OneHeader (fmt : DoubleFormat) (r : Run) : Prop :=
  ∀ d ≤ kLastCsvDay, rowsOf fmt r.log .depth d ≠ [] → Headed fmt r.writer.files r.log d

theorem hasDepth_of_ne {d : UInt64} (depthLevel : UInt32) (h : ¬(e.kind = .depth ∧ e.day = d)) :
    e.HasDepth d depthLevel := by
  cases e with
  | tick _ | bookTicker _ => trivial
  | orderbook event localTs depthLevel' => exact fun hday => absurd ⟨rfl, hday⟩ h

theorem headed_append_of_ne {files' : List Char → Option (List Char)} {d : UInt64}
    (h : ¬(e.kind = .depth ∧ e.day = d))
    (hfiles : files' (dayFile .depth d) = files (dayFile .depth d)) :
    Headed fmt files' (log ++ [e]) d ↔ Headed fmt files log d := by
  rw [Headed, hfiles, rowsOf_append_of_ne h]
  simp only [List.forall_mem_append, List.forall_mem_singleton, hasDepth_of_ne _ h, and_true]
  rfl

theorem count_headed (fmt : DoubleFormat) (log : List Entry) (d : UInt64) (depthLevel : UInt32) :
    (Csv.text (orderbookHeader depthLevel :: rowsOf fmt log .depth d)).count '\n' =
      (rowsOf fmt log .depth d).length + 1 :=
  Csv.count_text (List.forall_mem_cons.mpr
    ⟨plain_orderbookHeader depthLevel, plain_rowsOf_depth fmt log d⟩)

theorem hasDepth_of_rowsOf_eq_nil {d : UInt64} (depthLevel : UInt32)
    (h : rowsOf fmt log .depth d = []) : ∀ e ∈ log, e.HasDepth d depthLevel := by
  refine fun e he => hasDepth_of_ne depthLevel ?_
  rintro ⟨hkind, rfl⟩
  exact rowsOf_ne_nil he (hkind ▸ h)

theorem headerFor_depth {w : State} {depthLevel : UInt32} (hkind : e.kind = .depth)
    (hdepth : e.OfDepth depthLevel) :
    headerFor w e = if w.headerWritten then [] else Csv.line (orderbookHeader depthLevel) := by
  cases e with
  | tick _ | bookTicker _ => cases hkind
  | orderbook _ _ _ =>
    cases hdepth
    rfl

theorem hasDepth_self {depthLevel depthLevel' : UInt32} (hkind : e.kind = .depth)
    (hdepth : e.OfDepth depthLevel) : e.HasDepth e.day depthLevel' ↔ depthLevel = depthLevel' := by
  cases e with
  | tick _ | bookTicker _ => cases hkind
  | orderbook _ _ _ =>
    cases hdepth
    exact ⟨fun h => h rfl, fun h _ => h⟩

/-- On the day of an order book: the file is one header and the rows if it was so before, and a
header is written only when the file is empty. -/
theorem headed_append_self {w w' : State} (hkind : e.kind = .depth)
    (hdepth : e.OfDepth r.depthLevel) (hday : e.day ≤ kLastCsvDay) (hw : Ready fmt r e.day w)
    (happ : Appended fmt r e w w') :
    Headed fmt w'.files (r.log ++ [e]) e.day ↔
      (rowsOf fmt r.log .depth e.day ≠ [] → Headed fmt r.writer.files r.log e.day) ∧
      (w.headerWritten = true ∨ contents w.files (dayFile .depth e.day) = []) := by
  obtain ⟨text, htext, hnil, hcount⟩ := hw.files.depth hday (.inr rfl)
  have hself := rowsOf_append_self fmt r.log e
  rw [hkind] at hself
  have hfile : w'.files (dayFile .depth e.day) =
      some (text ++ (headerFor w e ++ Csv.line (e.fields fmt))) := by
    rw [happ.files, hkind, write_self, contents, htext, Option.getD_some]
  have hold (hrows : rowsOf fmt r.log .depth e.day ≠ []) :
      r.writer.files (dayFile .depth e.day) = some text := by
    obtain ⟨e', he', -, hday'⟩ := exists_of_rowsOf_ne_nil hrows
    rw [← hw.same hday ⟨e', he', hday'⟩, htext]
  have hheadedNew (depthLevel : UInt32) : Csv.text (orderbookHeader depthLevel ::
      rowsOf fmt (r.log ++ [e]) .depth e.day) =
      Csv.text (orderbookHeader depthLevel :: rowsOf fmt r.log .depth e.day) ++
        Csv.line (e.fields fmt) := by
    rw [hself, ← List.cons_append, Csv.text_append, Csv.text_singleton]
  rw [contents, htext, Option.getD_some]
  have hheader := headerFor_depth (w := w) hkind hdepth
  constructor
  · rintro ⟨depthLevel, hlog, hnew⟩
    obtain ⟨hlog, -⟩ := List.forall_mem_append.mp hlog
    rw [hfile, hheadedNew, ← List.append_assoc] at hnew
    have hbefore := List.append_cancel_right (Option.some.inj hnew)
    cases hwritten : w.headerWritten with
    | true =>
      rw [hheader, hwritten, if_pos rfl, List.append_nil] at hbefore
      exact ⟨fun hrows => ⟨depthLevel, hlog, by rw [hold hrows, hbefore]⟩, .inl rfl⟩
    | false =>
      -- another header makes one line more than there are rows
      have hlines := congrArg (List.count '\n') hbefore
      rw [List.count_append, count_headed, hheader, hwritten, if_neg Bool.false_ne_true,
        Csv.count_line (plain_orderbookHeader _)] at hlines
      have hempty : rowsOf fmt r.log .depth e.day = [] := by
        by_contra hrows
        have := hcount hrows
        omega
      exact ⟨fun hrows => absurd hempty hrows, .inr (hnil hempty)⟩
  · rintro ⟨hheaded, hor⟩
    cases hwritten : w.headerWritten with
    | true =>
      obtain ⟨hlevel, event, localTs, hmem, hday'⟩ := hw.header hwritten
      have hrows : rowsOf fmt r.log .depth (event.exchangeTimestamp / kUsecsPerDay) ≠ [] :=
        rowsOf_ne_nil hmem
      rw [hday'.trans hw.day] at hrows
      obtain ⟨depthLevel, hlog, hfile'⟩ := hheaded hrows
      cases hlog _ hmem (hday'.trans hw.day)
      refine ⟨r.depthLevel, ?_, ?_⟩
      · exact List.forall_mem_append.mpr
          ⟨hlog, List.forall_mem_singleton.mpr ((hasDepth_self hkind hdepth).mpr rfl)⟩
      · rw [hold hrows] at hfile'
        rw [hfile, hheader, hwritten, if_pos rfl, List.nil_append, hheadedNew,
          Option.some.inj hfile']
    | false =>
      have htextNil : text = [] := hor.resolve_left (hwritten ▸ Bool.false_ne_true)
      have hempty : rowsOf fmt r.log .depth e.day = [] := by
        by_contra hrows
        have := hcount hrows
        rw [htextNil] at this
        cases this
      refine ⟨r.depthLevel, ?_, ?_⟩
      · exact List.forall_mem_append.mpr ⟨hasDepth_of_rowsOf_eq_nil _ hempty,
          List.forall_mem_singleton.mpr ((hasDepth_self hkind hdepth).mpr rfl)⟩
      · rw [hfile, hheader, hwritten, if_neg Bool.false_ne_true, htextNil, hheadedNew, hempty,
          Csv.text_singleton, List.nil_append]

theorem oneHeader_append (h : Inv fmt r) (hday : e.day ≤ kLastCsvDay)
    (hdepth : e.OfDepth r.depthLevel) :
    OneHeader fmt ⟨append fmt r.writer e, r.depthLevel, r.log ++ [e]⟩ ↔
      OneHeader fmt r ∧ (e.kind = .depth → (rotated r.writer e.day).headerWritten = true ∨
        contents (rotated r.writer e.day).files (dayFile .depth e.day) = []) := by
  have hw := h.ready hday
  have happ := hw.append hdepth
  have hother {d : UInt64} (hd : d ≤ kLastCsvDay) (hne : ¬(e.kind = .depth ∧ e.day = d)) :
      (rowsOf fmt (r.log ++ [e]) .depth d ≠ [] →
          Headed fmt (append fmt r.writer e).files (r.log ++ [e]) d) ↔
        (rowsOf fmt r.log .depth d ≠ [] → Headed fmt r.writer.files r.log d) := by
    rw [rowsOf_append_of_ne hne]
    refine forall_congr' fun hrows => headed_append_of_ne hne ?_
    obtain ⟨e', he', -, hday'⟩ := exists_of_rowsOf_ne_nil hrows
    rw [happ.files, write_of_ne, hw.same hd ⟨e', he', hday'⟩]
    intro heq
    obtain ⟨hkind, hd'⟩ := dayFile_inj hd hday heq
    exact hne ⟨hkind.symm, hd'.symm⟩
  constructor
  · intro hone
    refine ⟨fun d hd => ?_, fun hkind => ?_⟩
    · rcases Classical.em (e.kind = .depth ∧ e.day = d) with ⟨hkind, rfl⟩ | hne
      · exact ((headed_append_self hkind hdepth hday hw happ).mp
          (hone e.day hday (hkind ▸ rowsOf_ne_nil List.mem_concat_self))).1
      · exact (hother hd hne).mp (hone d hd)
    · exact ((headed_append_self hkind hdepth hday hw happ).mp
        (hone e.day hday (hkind ▸ rowsOf_ne_nil List.mem_concat_self))).2
  · rintro ⟨hone, hfits⟩ d hd
    rcases Classical.em (e.kind = .depth ∧ e.day = d) with ⟨hkind, rfl⟩ | hne
    · exact fun _ => (headed_append_self hkind hdepth hday hw happ).mpr
        ⟨hone e.day hday, hfits hkind⟩
    · exact (hother hd hne).mpr (hone d hd)

/-! ## Runs -/

/-- An action appends an entry of the writer's depth, or leaves a closed writer and the files as
they are. -/
inductive Effect (fmt : DoubleFormat) (r : Run) : Action → Run → Prop
  | append {a : Action} {e : Entry} : e.day ≤ kLastCsvDay → e.OfDepth r.depthLevel →
    (HeaderFits r a ↔ (e.kind = .depth → (rotated r.writer e.day).headerWritten = true ∨
      contents (rotated r.writer e.day).files
        (fileName .depth (rotated r.writer e.day).currentDate) = [])) →
    Effect fmt r a ⟨append fmt r.writer e, r.depthLevel, r.log ++ [e]⟩
  | closes {a : Action} {w : State} {depthLevel : UInt32} : HeaderFits r a → w.tradeOpen = false →
    w.files = r.writer.files → Effect fmt r a ⟨w, depthLevel, r.log⟩

theorem record_eq_some (h : record fmt r e = some t) :
    e.day ≤ kLastCsvDay ∧ t = ⟨append fmt r.writer e, r.depthLevel, r.log ++ [e]⟩ := by
  unfold record at h
  split at h
  next hok =>
    cases h
    exact ⟨hok.1, rfl⟩
  next => cases h

theorem step_effect {a : Action} (h : step fmt r a = some t) : Effect fmt r a t := by
  cases a with
  | appendTick tick =>
    obtain ⟨hday, rfl⟩ := record_eq_some h
    exact .append hday trivial ⟨fun _ => nofun, fun _ => trivial⟩
  | appendBookTicker event =>
    obtain ⟨hday, rfl⟩ := record_eq_some h
    exact .append hday trivial ⟨fun _ => nofun, fun _ => trivial⟩
  | appendOrderbook event localTs =>
    obtain ⟨hday, rfl⟩ := record_eq_some h
    refine .append hday rfl ?_
    simp only [HeaderFits, rotateIfNeeded_all]
    exact ⟨fun h _ => h, fun h => h rfl⟩
  | close =>
    cases h
    exact .closes trivial rfl rfl
  | recreate depthLevel =>
    cases h
    exact .closes trivial rfl rfl

theorem Effect.inv {a : Action} (h : Inv fmt r) (he : Effect fmt r a t) : Inv fmt t := by
  cases he with
  | append hday hdepth _ => exact h.append hday hdepth
  | closes _ hclosed hfiles =>
    refine ⟨?_, h.inRange, fun hopen => ?_, fun hopen => ?_⟩
    · rw [hfiles]
      exact h.files
    · cases hclosed.symm.trans hopen
    · cases hclosed.symm.trans hopen

theorem Effect.oneHeader {a : Action} (h : Inv fmt r) (he : Effect fmt r a t) :
    OneHeader fmt t ↔ OneHeader fmt r ∧ HeaderFits r a := by
  cases he with
  | append hday hdepth hfits =>
    have hw := h.ready hday
    rw [oneHeader_append h hday hdepth, hfits, hw.opened.date, hw.day]
    rfl
  | closes hfits _ hfiles =>
    simp only [OneHeader, hfiles, hfits, and_true]

theorem inv_init (fmt : DoubleFormat) (depthLevel : UInt32) :
    Inv fmt (machine fmt depthLevel).init :=
  ⟨⟨fun _ _ _ => rfl, fun _ ⟨_, he, _⟩ => absurd he List.not_mem_nil,
    fun _ ⟨_, he, _⟩ => absurd he List.not_mem_nil⟩, List.forall_mem_nil _, nofun, nofun⟩

theorem exec_inv {depthLevel : UInt32} {as : List Action}
    (h : (machine fmt depthLevel).exec (machine fmt depthLevel).init as = some t) : Inv fmt t :=
  (machine fmt depthLevel).exec_invariant (fun _ _ _ hI _ hst => (step_effect hst).inv hI)
    (inv_init fmt depthLevel) (Machine.along_true ..) h

theorem exec_oneHeader_iff {depthLevel : UInt32} {as : List Action}
    (h : (machine fmt depthLevel).exec (machine fmt depthLevel).init as = some t) :
    OneHeader fmt t ↔
      (machine fmt depthLevel).Along HeaderFits (machine fmt depthLevel).init as := by
  have hinit : OneHeader fmt (machine fmt depthLevel).init := fun _ _ hrows => absurd rfl hrows
  rw [(machine fmt depthLevel).exec_iff (fun _ _ _ hI hst => (step_effect hst).inv hI)
    (fun _ _ _ hI hst => (step_effect hst).oneHeader hI) (inv_init fmt depthLevel) h]
  exact ⟨And.right, fun h => ⟨hinit, h⟩⟩

/-- With an order book on each day, one header per file of order books is all that is needed. -/
theorem Inv.wellFormed_iff (h : Inv fmt r) :
    WellFormed fmt r ↔ OneHeader fmt r ∧ OrderbookEachDay r.log := by
  constructor
  · intro hwf
    refine ⟨fun d hd hrows => ?_, fun e he => ?_⟩
    · obtain ⟨e, he, -, hday⟩ := exists_of_rowsOf_ne_nil hrows
      exact hwf.depth d hd ⟨e, he, hday⟩
    · have hd := h.inRange e he
      obtain ⟨text, htext, hnil, -⟩ := h.files.depth hd ⟨e, he, rfl⟩
      obtain ⟨depthLevel, -, hheaded⟩ := hwf.depth e.day hd ⟨e, he, rfl⟩
      refine exists_of_rowsOf_ne_nil fun (hrows : rowsOf fmt r.log .depth e.day = []) => ?_
      -- a file without rows is empty
      rw [htext, hnil hrows] at hheaded
      exact List.append_ne_nil_of_left_ne_nil (Csv.line_ne_nil _) _ (Option.some.inj hheaded).symm
  · rintro ⟨hone, heach⟩
    refine ⟨fun d hd => h.files.absent hd, fun d hd hV => ?_, fun d hd hV => ?_, fun d hd hV => ?_⟩
    · exact h.files.present hd hV .tick nofun
    · exact h.files.present hd hV .bookTicker nofun
    · obtain ⟨e, he, rfl⟩ := hV
      obtain ⟨e', he', hkind, hday⟩ := heach e he
      exact hone _ hd (hkind ▸ hday ▸ rowsOf_ne_nil he')

end CsvWriter
end Sqc
