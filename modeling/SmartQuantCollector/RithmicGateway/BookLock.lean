import SmartQuantCollector.RithmicGateway.BookCell

/-! # Callbacks from several threads

`FindBook` takes no lock, and where it makes a book it writes `m_channelToBook` and `m_bookCount`:
two threads that do so at once can put two channels into one slot. Its comment has this path at
startup only. So the gateway first runs with one thread, and then any number of threads are called
back for channels that have their books (`BookLock.machine`).

From then on the books and the snapshots are those of one thread that gets the callbacks in the
order in which they got the lock (`books_serialised`), so that what is proved about
`MyCallbacks.machine` holds with any number of threads. In particular no snapshot shows a book in
the middle of a callback (`snapshots_wellFormed`). -/

namespace Sqc

open CountedArray Concurrency RithmicOrderBook SpinLock

/-! ## Books that there are -/

namespace MyCallbacks

variable {P Q : Type} {map : RithmicChannelMap} {g : MyCallbacks P Q} {header : CallHeader}
  {idx : UInt8}

/-- What `FindBook` returns where it makes no book, and so only reads. -/
def knownSlot (map : RithmicChannelMap) (g : MyCallbacks P Q) (header : CallHeader) :
    Option (Option UInt8) :=
  (findBook map g header).bind fun (t, idx) => if t.bookCount = g.bookCount then some idx else none

theorem found_of_knownSlot (h : knownSlot map g header = some (some idx)) :
    header.channelId map ≠ RithmicChannelMap.kNotFound ∧
      g.channelToBook (header.channelId map) = some idx := by
  obtain ⟨⟨t, slot⟩, hfind, h⟩ := Option.bind_eq_some_iff.mp h
  obtain ⟨hcount, h⟩ := Option.ite_none_right_eq_some.mp h
  cases h
  cases found_of_findBook hfind with
  | known hch hidx => exact ⟨hch, hidx⟩
  | created _ _ _ _ => exact absurd hcount (Nat.succ_ne_self _)

theorem findBook_eq_of_known (hch : header.channelId map ≠ RithmicChannelMap.kNotFound)
    (hidx : g.channelToBook (header.channelId map) = some idx) :
    findBook map g header = some (g, some idx) := by
  simp only [findBook, if_neg hch, hidx]

variable [Zero P] [LinearOrder P] [LinearOrder Q] [Zero Q]

/-- Callbacks for the channel of a book do their work on that book. -/
theorem exec_book {cs : List (BookCallback P)} (sc : SizeCast Q) (maxDepthLevels : UInt32)
    (hcs : ∀ c ∈ cs, c.1.channelId map ≠ RithmicChannelMap.kNotFound ∧
      g.channelToBook (c.1.channelId map) = some idx) :
    (machine map sc maxDepthLevels).exec g (cs.map fun c => .book c.1 c.2) =
      onBooks sc maxDepthLevels idx g cs := by
  induction cs generalizing g with
  | nil => rfl
  | cons c cs ih =>
    rw [List.forall_mem_cons] at hcs
    have hstep : (machine map sc maxDepthLevels).step g (.book c.1 c.2) =
        onBook sc maxDepthLevels g idx c.1 c.2 := by
      show bookCall map sc maxDepthLevels g c.1 c.2 = _
      rw [bookCall, findBook_eq_of_known hcs.1.1 hcs.1.2]
      rfl
    rw [List.map_cons, Machine.exec_cons, hstep, onBooks, List.foldlM_cons]
    refine Option.bind_congr fun u hu => ih fun d hd => ?_
    rw [(worked_of_onBook hu).channelToBook]
    exact hcs.2 d hd

end MyCallbacks

/-! ## Any number of threads -/

namespace BookLock

variable {ι P Q : Type} [DecidableEq ι] [LinearOrder P] [LinearOrder Q] [Zero Q]

abbrev State (ι P Q : Type) := SpinLock.State ι UInt8 (BookCallback P) (BookCell P Q)

inductive Action (ι P : Type) where
  /-- Thread `i` is called back, and `FindBook` returns to it. -/
  | callback (i : ι) (header : CallHeader) (c : Callback P)
  /-- The next access of thread `i`. -/
  | step (i : ι)

/-- The locks of the books of `g`, from which nothing has been pushed. -/
def locks (ι : Type) [DecidableEq ι] (sc : SizeCast Q) (maxDepthLevels : UInt32)
    (g : MyCallbacks P Q) : Machine (State ι P Q) (SpinLock.Action ι UInt8 (BookCallback P)) :=
  SpinLock.machine ι (BookCell.callbackProg sc maxDepthLevels) fun idx => ⟨g.books idx, []⟩

/-- The threads `ι` on the books of `g`. No callback makes a book, so that `m_channelToBook` and
`m_bookCount` are as in `g` throughout. -/
def machine (ι : Type) [DecidableEq ι] (map : RithmicChannelMap) (sc : SizeCast Q)
    (maxDepthLevels : UInt32) (g : MyCallbacks P Q) : Machine (State ι P Q) (Action ι P) where
  init := (locks ι sc maxDepthLevels g).init
  step s
    | .callback i header c =>
      (g.knownSlot map header).bind fun
        | some idx => (locks ι sc maxDepthLevels g).step s (.call i idx (header, c))
        -- without a book the callback returns
        | none => match s.threads i with
          | .idle => some s
          | _ => none
    | .step i => (locks ι sc maxDepthLevels g).step s (.step i)

omit [DecidableEq ι] [LinearOrder P] [LinearOrder Q] [Zero Q] in
/-- What an action is for the lock of its book. -/
def lockAction (map : RithmicChannelMap) (g : MyCallbacks P Q) :
    Action ι P → Option (SpinLock.Action ι UInt8 (BookCallback P))
  | .callback i header c => (g.knownSlot map header).join.map fun idx => .call i idx (header, c)
  | .step i => some (.step i)

variable {map : RithmicChannelMap} {sc : SizeCast Q} {maxDepthLevels : UInt32}
  {g : MyCallbacks P Q} {as : List (Action ι P)} {s t : State ι P Q}

theorem exec_locks (h : (machine ι map sc maxDepthLevels g).exec s as = some t) :
    (locks ι sc maxDepthLevels g).exec s (as.filterMap (lockAction map g)) = some t := by
  induction as generalizing s with
  | nil => exact h
  | cons a as ih =>
    obtain ⟨u, hu, hrest⟩ := (Machine.exec_cons_iff _).mp h
    cases a with
    | step i => exact (Machine.exec_cons_iff _).mpr ⟨u, hu, ih hrest⟩
    | callback i header c =>
      obtain ⟨slot, hslot, hu⟩ := Option.bind_eq_some_iff.mp hu
      cases slot with
      | some idx =>
        have haction : lockAction map g (.callback i header c) =
            some (.call i idx (header, c)) := by
          rw [lockAction, hslot]
          rfl
        rw [List.filterMap_cons_some haction]
        exact (Machine.exec_cons_iff _).mpr ⟨u, hu, ih hrest⟩
      | none =>
        have haction : lockAction map g (.callback i header c) = none := by
          rw [lockAction, hslot]
          rfl
        have hsame : u = s := by
          change (match s.threads i with | .idle => some s | _ => none) = some u at hu
          split at hu
          · exact (Option.some.inj hu).symm
          · cases hu
        rw [List.filterMap_cons_none haction, ← hsame]
        exact ih hrest

/-- The accesses of one thread. -/
theorem exec_steps (map : RithmicChannelMap) (i : ι) (n : Nat) :
    (machine ι map sc maxDepthLevels g).exec s (List.replicate n (.step i)) =
      (locks ι sc maxDepthLevels g).exec s (List.replicate n (.step i)) := by
  induction n generalizing s with
  | zero => rfl
  | succ n ih =>
    rw [List.replicate_succ, List.replicate_succ, Machine.exec_cons, Machine.exec_cons]
    exact Option.bind_congr fun u _ => ih

omit [LinearOrder P] [LinearOrder Q] [Zero Q] in
/-- A callback that got the lock was made, and `FindBook` returned that book to it. -/
theorem callback_mem_of_entered (h : CallOrder (as.filterMap (lockAction map g)) s) {i : ι}
    {idx : UInt8} {c : BookCallback P} (hc : (i, c) ∈ s.entered idx) :
    .callback i c.1 c.2 ∈ as ∧ g.knownSlot map c.1 = some (some idx) := by
  have hsection : c ∈ sections s i idx :=
    List.mem_filterMap.mpr ⟨(i, c), hc, if_pos rfl⟩
  have hcall : c ∈ calls (as.filterMap (lockAction map g)) i idx := by
    rw [← h i idx]
    exact List.mem_append_left _ hsection
  obtain ⟨b, hb, hbc⟩ := List.mem_filterMap.mp hcall
  obtain ⟨a, ha, hab⟩ := List.mem_filterMap.mp hb
  cases a with
  | step j =>
    cases hab
    cases hbc
  | callback j header d =>
    obtain ⟨slot, hslot, rfl⟩ := Option.map_eq_some_iff.mp hab
    simp only [Option.ite_none_right_eq_some, Option.some.injEq] at hbc
    obtain ⟨⟨rfl, rfl⟩, rfl⟩ := hbc
    exact ⟨ha, Option.join_eq_some_iff.mp hslot⟩

variable [Zero P]

/-- Nothing of the interleaving shows in the books and in the events. -/
structure Serialised (map : RithmicChannelMap) (sc : SizeCast Q) (maxDepthLevels : UInt32)
    (g : MyCallbacks P Q) (as : List (Action ι P)) (s : State ι P Q) : Prop where
  /-- The callbacks of a thread get the lock of a book in the order in which they come. -/
  order : CallOrder (as.filterMap (lockAction map g)) s
  exclusive : ∀ {i j idx}, (s.threads i).lock = some idx → (s.threads j).lock = some idx → i = j
  /-- The gateway with one thread, called back in the order of the lock, pushes the same events, and
  leaves the same book whenever the lock is free. -/
  oneThread : ∀ idx, ∃ t,
    (MyCallbacks.machine map sc maxDepthLevels).exec { g with depthQueue := [] }
        ((s.entered idx).map fun c => .book c.2.1 c.2.2) = some t ∧
      (s.shared idx).pushed <+: t.depthQueue ∧ (s.flag idx = false → s.shared idx = t.cell idx)
  /-- A callback that has the lock gives it back, whatever the other threads wait for. -/
  leaves : ∀ {i idx rest}, s.threads i = .inside idx rest →
    ∃ n t, (machine ι map sc maxDepthLevels g).exec s (List.replicate n (.step i)) = some t ∧
      t.threads i = .idle ∧ t.flag idx = false

/-- One thread that is called back as the lock of the book was got works on that book alone. -/
theorem exec_entered (h : CallOrder (as.filterMap (lockAction map g)) s) (sc : SizeCast Q)
    (maxDepthLevels : UInt32) (idx : UInt8) :
    (MyCallbacks.machine map sc maxDepthLevels).exec { g with depthQueue := [] }
        ((s.entered idx).map fun c => .book c.2.1 c.2.2) =
      MyCallbacks.onBooks sc maxDepthLevels idx { g with depthQueue := [] }
        ((s.entered idx).map Prod.snd) := by
  rw [← MyCallbacks.exec_book sc maxDepthLevels, List.map_map]
  · rfl
  · intro c hc
    obtain ⟨⟨i, c⟩, hentered, rfl⟩ := List.mem_map.mp hc
    exact MyCallbacks.found_of_knownSlot (g := g) (callback_mem_of_entered h hentered).2

/-- The books are those that one thread has left after any callbacks. Over every interleaving of the
accesses of any number of threads that are called back from then on for channels with a book. -/
theorem books_serialised (map : RithmicChannelMap) (sc : SizeCast Q) (maxDepthLevels : UInt32)
    (startup : List (GatewayCall P)) (g : MyCallbacks P Q)
    (hg : (MyCallbacks.machine map sc maxDepthLevels).exec
      (MyCallbacks.machine map sc maxDepthLevels).init startup = some g)
    (as : List (Action ι P)) (s : State ι P Q)
    (hs : (machine ι map sc maxDepthLevels g).exec (machine ι map sc maxDepthLevels g).init as =
      some s) :
    Serialised map sc maxDepthLevels g as s := by
  have hlocks := exec_locks hs
  have hinv := exec_inv hlocks
  have horder := exec_callOrder hlocks
  have hserial := fun idx => MyCallbacks.serial_callbackProg sc maxDepthLevels
    (g := { g with depthQueue := [] }) (MyCallbacks.exec_ok hg).2 idx (s.entered idx)
  refine ⟨horder, fun hi hj => hinv.exclusive.unique hi hj, fun idx => ?_,
    fun {i idx rest} hi => ?_⟩
  · obtain ⟨t, ht, hrun⟩ := hserial idx
    refine ⟨t, (exec_entered horder sc maxDepthLevels idx).trans ht,
      exec_shared BookCell.along_callbackProg hlocks hrun, fun hfree => ?_⟩
    exact Option.some.inj ((hinv.free hfree).symm.trans hrun)
  · obtain ⟨t, -, hrun⟩ := hserial idx
    obtain ⟨n, u, hu, hidle, hflag, -⟩ := exec_leave hi ((hinv.held hi).symm.trans hrun)
    exact ⟨n, u, (exec_steps map i n).trans hu, hidle, hflag⟩

/-- A quote from one thread, and an image from another thread, which spins meanwhile. Between them a
callback for an instrument that is not registered. -/
def quoteBeforeImage : List (Action Bool Int) :=
  let header ticker := MyCallbacks.exampleHeader (MyCallbacks.zeroTerminated ticker)
  [.callback false (header "NQZ5") (.quote (.askQuote ⟨1, true, 12, true, 3⟩)), .step false,
    .callback true (header "CLZ5") (.quote .endQuote),
    .callback true (header "NQZ5") (.limitOrderBook ⟨kMdImageCb, fun i => 10 + i, fun _ => 5, 2,
      fun i => 9 - i, fun _ => 4, 1⟩), .step true, .step false, .step true] ++
    List.replicate 8 (.step false) ++ List.replicate 18 (.step true)

open MyCallbacks in
theorem quoteBeforeImage_serialised :
    ∃ g, (MyCallbacks.machine twoChannels intCast 10).exec .init twoInstruments = some g ∧
      g.bookCount = 2 ∧
      ((machine Bool twoChannels intCast 10 g).exec (machine Bool twoChannels intCast 10 g).init
        quoteBeforeImage).map (fun s => (s.shared 1).pushed.map fun e =>
          (e.bids.map (·.price), e.asks.map (·.price))) = some [([], [10, 12]), ([9], [10, 11])] ∧
      ∀ s, (machine Bool twoChannels intCast 10 g).exec (machine Bool twoChannels intCast 10 g).init
        quoteBeforeImage = some s → Serialised twoChannels intCast 10 g quoteBeforeImage s := by
  have hrun : ((MyCallbacks.machine twoChannels intCast 10).exec .init twoInstruments).map (fun g =>
      (g.bookCount, ((machine Bool twoChannels intCast 10 g).exec
        (machine Bool twoChannels intCast 10 g).init quoteBeforeImage).map (fun s =>
          (s.shared 1).pushed.map fun e => (e.bids.map (·.price), e.asks.map (·.price))))) =
        some (2, some [([], [10, 12]), ([9], [10, 11])]) := by
    decide +kernel
  obtain ⟨g, hg, hfigures⟩ := Option.map_eq_some_iff.mp hrun
  obtain ⟨hcount, hpushed⟩ := Prod.mk.inj hfigures
  exact ⟨g, hg, hcount, hpushed,
    books_serialised twoChannels intCast 10 twoInstruments g hg quoteBeforeImage⟩

end BookLock

/-! ## What is pushed -/

/-- The arrays of an image are sorted as the exchange delivers them. -/
def Callback.Delivered {P : Type} [LinearOrder P] : Callback P → Prop
  | .quote _ => True
  | .limitOrderBook info => info.iType = kMdImageCb →
    (∀ i j : Nat, i < j → (j : Int) < info.iAskArrayLen.toInt →
      Before true (info.adAskPriceArray i) (info.adAskPriceArray j)) ∧
    ∀ i j : Nat, i < j → (j : Int) < info.iBidArrayLen.toInt →
      Before false (info.adBidPriceArray i) (info.adBidPriceArray j)

/-- The images among the callbacks are sorted. -/
def GatewayCall.Delivered {P : Type} [LinearOrder P] : GatewayCall P → Prop
  | .book _ c => c.Delivered
  | .tradePrint .. | .bestBidAskQuote .. => True

/-- A depth event as a consumer expects it. -/
structure DepthEvent.WellFormed {P Q : Type} [LinearOrder P] [LinearOrder Q] [Zero Q]
    (e : DepthEvent P Q) : Prop where
  bids_descending : e.bids.Pairwise fun l r => r.price < l.price
  asks_ascending : e.asks.Pairwise fun l r => l.price < r.price
  bid_quantity_pos : ∀ l ∈ e.bids, 0 < l.quantity
  ask_quantity_pos : ∀ l ∈ e.asks, 0 < l.quantity
  bids_le : e.bids.length ≤ kMaxOrderbookLevels
  asks_le : e.asks.length ≤ kMaxOrderbookLevels

namespace RithmicOrderBook

variable {P Q : Type} [LinearOrder P] [LinearOrder Q] [Zero Q] {b : RithmicOrderBook P Q}

/-- A callback keeps the representation invariant. -/
theorem Inv.callback_sideOk (h : Inv SideOk (fun _ _ => True) b) (sc : SizeCast Q)
    (maxDepthLevels : UInt32) {c : Callback P} (hc : c.Delivered) :
    ∃ b', RithmicOrderBook.callback sc maxDepthLevels b c = some b' ∧
      Inv SideOk (fun _ _ => True) b' := by
  cases c with
  | quote c => exact h.quoteCallback sideOk_closed fun _ _ => trivial
  | limitOrderBook info =>
    by_cases himage : info.iType = kMdImageCb
    · obtain ⟨hasks, hbids⟩ := hc himage
      obtain ⟨u, hu, hinv⟩ := h.applyImage sc (sideOk_imageLevels sc hasks info.allAskSizeArray _)
      obtain ⟨b', hb', hinv'⟩ :=
        hinv.applyImage sc (sideOk_imageLevels sc hbids info.allBidSizeArray _)
      refine ⟨b', ?_, hinv'⟩
      rw [RithmicOrderBook.callback, limitOrderBook, if_pos himage, hu]
      exact hb'
    · exact h.update sideOk_closed himage fun _ _ _ => trivial

end RithmicOrderBook

namespace MyCallbacks

variable {P Q : Type} [LinearOrder P] [LinearOrder Q] [Zero Q] {sc : SizeCast Q}
  {maxDepthLevels : UInt32} {g t : MyCallbacks P Q} {idx : UInt8}

/-- The book keeps the representation invariant, and its events show it. -/
structure EventsOk (idx : UInt8) (channelId : UInt32) (g : MyCallbacks P Q) : Prop where
  levels : Inv SideOk (fun _ _ => True) (g.books idx).levels
  channelId_eq : (g.books idx).channelId = channelId
  events : ∀ e ∈ g.depthQueue, e.WellFormed ∧ e.channelId = channelId

omit [LinearOrder P] [LinearOrder Q] [Zero Q] in
theorem length_toList_le {α : Type*} {cap : Nat} (c : CountedArray α cap) :
    c.toList.length ≤ cap := by
  rw [CountedArray.toList]
  exact (List.length_take_le' _ _).trans_eq (Vector.length_toList ..)

theorem wellFormed_snapshotTo {book : BookSlot P Q}
    (h : Inv SideOk (fun _ _ => True) book.levels) (exchangeTs localDiff : UInt64) :
    (book.snapshotTo exchangeTs localDiff).WellFormed where
  bids_descending := (h.side false).1
  asks_ascending := (h.side true).1
  bid_quantity_pos := (h.side false).2
  ask_quantity_pos := (h.side true).2
  bids_le := length_toList_le book.levels.bids
  asks_le := length_toList_le book.levels.asks

theorem levels_of_onBook {header : CallHeader} {c : Callback P}
    (h : onBook sc maxDepthLevels g idx header c = some t) :
    callback sc maxDepthLevels (g.books idx).levels c = some (t.books idx).levels := by
  have hcell := onCallback_cell sc maxDepthLevels g idx (header, c)
  rw [h, Option.map_some, BookCell.onCallback] at hcell
  obtain ⟨levels, hlevels, hcell⟩ := Option.map_eq_some_iff.mp hcell
  have hbook : levels = (t.cell idx).book.levels := by
    rw [← hcell]
    split
    next =>
      rw [BookCell.push]
      cases resolveRithmicExchangeTimestamp _ _ _ _ <;> rfl
    next => rfl
  exact hbook ▸ hlevels

/-- A callback keeps the representation invariant of its book. -/
theorem sideOk_of_onBook (h : Inv SideOk (fun _ _ => True) (g.books idx).levels)
    {header : CallHeader} {c : Callback P} (hc : c.Delivered)
    (ht : onBook sc maxDepthLevels g idx header c = some t) :
    Inv SideOk (fun _ _ => True) (t.books idx).levels := by
  obtain ⟨b, hb, hinv⟩ := h.callback_sideOk sc maxDepthLevels hc
  cases hb.symm.trans (levels_of_onBook ht)
  exact hinv

theorem EventsOk.onBook {ch : UInt32} (h : EventsOk idx ch g) {header : CallHeader}
    {c : Callback P} (hc : c.Delivered) (ht : onBook sc maxDepthLevels g idx header c = some t) :
    EventsOk idx ch t := by
  have hworked := worked_of_onBook ht
  have hlevels := sideOk_of_onBook h.levels hc ht
  have hid := hworked.channelId.trans h.channelId_eq
  refine ⟨hlevels, hid, fun e he => ?_⟩
  obtain ⟨new, hnew, hsnapshot⟩ := hworked.depths
  rw [hnew] at he
  rcases List.mem_append.mp he with he | he
  · exact h.events e he
  · rw [hsnapshot e he]
    exact ⟨wellFormed_snapshotTo hlevels _ _, hid⟩

theorem EventsOk.onBooks {ch : UInt32} (h : EventsOk idx ch g) {cs : List (BookCallback P)}
    (hcs : ∀ c ∈ cs, c.2.Delivered) (ht : onBooks sc maxDepthLevels idx g cs = some t) :
    EventsOk idx ch t := by
  induction cs generalizing g with
  | nil =>
    cases ht
    exact h
  | cons c cs ih =>
    rw [MyCallbacks.onBooks, List.foldlM_cons] at ht
    obtain ⟨u, hu, ht⟩ := Option.bind_eq_some_iff.mp ht
    rw [List.forall_mem_cons] at hcs
    exact ih (h.onBook hcs.1 hu) hcs.2 ht

/-- Every book keeps the representation invariant. -/
def SidesOk (g : MyCallbacks P Q) : Prop :=
  ∀ idx, Inv SideOk (fun _ _ => True) (g.books idx).levels

theorem SidesOk.step [Zero P] {map : RithmicChannelMap} (h : SidesOk g) {call : GatewayCall P}
    (hcall : call.Delivered) (ht : (machine map sc maxDepthLevels).step g call = some t) :
    SidesOk t := by
  rcases step_cases ht with ⟨header, c, rfl, hbook⟩ | ⟨-, hbooks, -⟩
  · obtain ⟨⟨u, slot⟩, hfind, hbook⟩ := Option.bind_eq_some_iff.mp hbook
    have hu : SidesOk u := by
      intro idx
      rw [(found_of_findBook hfind).levels_eq]
      exact h idx
    cases slot with
    | none =>
      cases hbook
      exact hu
    | some idx =>
      intro idx'
      rcases eq_or_ne idx' idx with rfl | hne
      · exact sideOk_of_onBook (hu idx') hcall hbook
      · rw [(worked_of_onBook hbook).books idx' hne]
        exact hu idx'
  · intro idx
    rw [hbooks]
    exact h idx

theorem exec_sidesOk [Zero P] {map : RithmicChannelMap} {calls : List (GatewayCall P)}
    (hcalls : ∀ call ∈ calls, call.Delivered)
    (h : (machine map sc maxDepthLevels).exec (machine map sc maxDepthLevels).init calls =
      some g) : SidesOk g :=
  (machine map sc maxDepthLevels).exec_invariant (C := fun _ call => call.Delivered)
    (fun _ _ _ hu hcall hv => hu.step hcall hv) (fun _ => Inv.init sideOk_closed)
    (Machine.along_of_forall _ hcalls) h

end MyCallbacks

namespace BookLock

variable {ι P Q : Type} [DecidableEq ι] [Zero P] [LinearOrder P] [LinearOrder Q] [Zero Q]

/-- Whatever the threads do, every event that is pushed from a book carries the id of the channel of
the book and shows the book sorted, with positive quantities and within its bounds. -/
theorem snapshots_wellFormed (map : RithmicChannelMap) (sc : SizeCast Q) (maxDepthLevels : UInt32)
    (startup : List (GatewayCall P)) (hstartup : ∀ call ∈ startup, call.Delivered)
    (g : MyCallbacks P Q)
    (hg : (MyCallbacks.machine map sc maxDepthLevels).exec
      (MyCallbacks.machine map sc maxDepthLevels).init startup = some g)
    (as : List (Action ι P)) (has : ∀ i header c, .callback i header c ∈ as → c.Delivered)
    (s : State ι P Q)
    (hs : (machine ι map sc maxDepthLevels g).exec (machine ι map sc maxDepthLevels g).init as =
      some s) :
    ∀ idx, ∀ e ∈ (s.shared idx).pushed,
      e.WellFormed ∧ g.channelToBook e.channelId = some idx := by
  intro idx e he
  have hlocks := exec_locks hs
  have horder := exec_callOrder hlocks
  obtain ⟨hslots, hlevels⟩ := MyCallbacks.exec_ok hg
  obtain ⟨t, ht, hrun⟩ := MyCallbacks.serial_callbackProg sc maxDepthLevels
    (g := { g with depthQueue := [] }) hlevels idx (s.entered idx)
  have hpushed : (s.shared idx).pushed <+: t.depthQueue :=
    exec_shared BookCell.along_callbackProg hlocks hrun
  have hstart : MyCallbacks.EventsOk idx (g.books idx).channelId { g with depthQueue := [] } :=
    ⟨MyCallbacks.exec_sidesOk hstartup hg idx, rfl, List.forall_mem_nil _⟩
  have hdelivered : ∀ c ∈ (s.entered idx).map Prod.snd, c.2.Delivered := by
    intro c hc
    obtain ⟨⟨i, c⟩, hentered, rfl⟩ := List.mem_map.mp hc
    exact has i c.1 c.2 (callback_mem_of_entered horder hentered).1
  obtain ⟨hwf, hid⟩ := (hstart.onBooks hdelivered ht).events e (hpushed.subset he)
  refine ⟨hwf, ?_⟩
  -- a book without callbacks has pushed nothing, the others have the channel of their callbacks
  cases hentered : s.entered idx with
  | nil =>
    rw [hentered] at ht
    cases ht
    cases hpushed.subset he
  | cons c cs =>
    have hslot := MyCallbacks.found_of_knownSlot (callback_mem_of_entered horder
      (show (c.1, c.2) ∈ s.entered idx from hentered ▸ List.mem_cons_self)).2
    rw [hid, hslots.channelId_eq _ idx hslot.2]
    exact hslot.2

open MyCallbacks in
theorem quoteBeforeImage_wellFormed :
    ∃ g, (MyCallbacks.machine twoChannels intCast 10).exec .init twoInstruments = some g ∧
      ((machine Bool twoChannels intCast 10 g).exec (machine Bool twoChannels intCast 10 g).init
        quoteBeforeImage).map (fun s => (s.shared 1).pushed.map (·.channelId)) =
          some (List.replicate 2 (computeChannelId "CME" "futures" "NQZ5")) ∧
      ∀ s, (machine Bool twoChannels intCast 10 g).exec (machine Bool twoChannels intCast 10 g).init
        quoteBeforeImage = some s → ∀ e ∈ (s.shared 1).pushed,
          e.WellFormed ∧ g.channelToBook e.channelId = some 1 := by
  have hrun : ((MyCallbacks.machine twoChannels intCast 10).exec .init twoInstruments).map (fun g =>
      ((machine Bool twoChannels intCast 10 g).exec (machine Bool twoChannels intCast 10 g).init
        quoteBeforeImage).map (fun s => (s.shared 1).pushed.map (·.channelId))) =
        some (some (List.replicate 2 (computeChannelId "CME" "futures" "NQZ5"))) := by
    decide +kernel
  obtain ⟨g, hg, hids⟩ := Option.map_eq_some_iff.mp hrun
  have hstartup : ∀ call ∈ twoInstruments, call.Delivered := by
    intro call hcall
    obtain ⟨ticker, -, rfl⟩ := List.mem_map.mp hcall
    trivial
  have hthreads : ∀ i header c, .callback i header c ∈ quoteBeforeImage → c.Delivered := by
    intro i header c hc
    rw [quoteBeforeImage, List.append_assoc, List.mem_append] at hc
    simp only [List.mem_cons, List.mem_append, List.mem_replicate, List.not_mem_nil, reduceCtorEq,
      and_false, or_false, false_or, Action.callback.injEq] at hc
    rcases hc with ⟨-, -, rfl⟩ | ⟨-, -, rfl⟩ | ⟨-, -, rfl⟩
    · trivial
    · trivial
    · exact fun _ => ⟨fun i j hij _ => by simp only [Before]; omega,
        fun i j hij _ => by simp only [Before]; omega⟩
  exact ⟨g, hg, hids, fun s hs => snapshots_wellFormed twoChannels intCast 10 twoInstruments
    hstartup g hg quoteBeforeImage hthreads s hs 1⟩

end BookLock

end Sqc
