import SmartQuantCollector.Storage.Engine.MmapEngine
import SmartQuantCollector.Storage.RecordLayout

/-! # The order book files of `MmapBackend` (`src/storage/backend/mmap_backend.cpp`)

`WriteOrderbook` appends a record in up to three `AppendRaw` calls, the header, the bids and the
asks; each of them may roll to a new file, and each publishes `write_offset` on its own. The files
are self-contained outside a record as long as none of the level appends rolls, and between the
header and the last levels of a record they are not (`selfContained_iff_levelsFit`). The files of
the engine have different names, as those of a short path have (`names_distinct_iff`). -/

namespace Sqc
open Concurrency MmapStorageEngine

namespace MmapBackend

/-- The `AppendRaw` calls of `WriteOrderbook`. -/
def writeOrderbook (event : DepthUpdateEvent) (localTs : UInt64) : List (List UInt8) :=
  orderbookHeaderBytes event localTs ::
    ((if event.bidCount > 0 then [priceLevelsBytes event.bids event.bidCount] else []) ++
      if event.askCount > 0 then [priceLevelsBytes event.asks event.askCount] else [])

namespace Orderbook

structure State where
  engine : MmapStorageEngine.State
  /-- The first call of the record in progress has returned. -/
  headerDone : Bool

/-- The state after an operation of the engine. -/
def State.after (s : State) (e : MmapStorageEngine.State) : State :=
  ⟨e, s.headerDone || e.calls.length < s.engine.calls.length⟩

inductive Action where
  | insertOrderbook (event : DepthUpdateEvent) (localTs : UInt64)
  | run (mapped : Bool)

/-- The counts are within the arrays and the record is smaller than the payload of a file. -/
def Storable (cfg : Config) (event : DepthUpdateEvent) : Prop :=
  event.bidCount.toNat ≤ kMaxOrderbookLevels ∧ event.askCount.toNat ≤ kMaxOrderbookLevels ∧
    kHeaderSize + 56 + 16 * (event.bidCount.toNat + event.askCount.toNat) < cfg.maxFileSize

instance (cfg : Config) (event : DepthUpdateEvent) : Decidable (Storable cfg event) :=
  inferInstanceAs (Decidable (_ ∧ _))

def step (cfg : Config) (s : State) : Action → Option State
  | .insertOrderbook event localTs =>
    if Storable cfg event then
      (start s.engine (writeOrderbook event localTs)).map fun e => ⟨e, false⟩
    else none
  | .run mapped => (MmapStorageEngine.step cfg s.engine mapped).map s.after

/-- The engine of a channel after `RegisterChannel`, over the files that are there. -/
def machine (cfg : Config) (disk : Nat → File) : Machine State Action where
  init := ⟨openOrCreate disk true, false⟩
  step := step cfg

/-- Every file is a whole number of records. -/
def SelfContained (disk : Nat → File) : Prop := ∀ n, orderbookFraming.Whole (disk n).payload

/-- A level append of the record in progress does not roll to a new file. -/
def LevelsFit (cfg : Config) (s : State) : Action → Prop
  | .insertOrderbook _ _ => True
  | .run _ => s.headerDone = true → s.engine.isOpen = true → s.engine.stage = .test →
    ∀ bytes ∈ s.engine.calls.head?, ¬NeedsRoll cfg s.engine bytes

/-- The header of a record has been appended, and levels of it have not. -/
def Interrupted (s : State) : Prop :=
  s.headerDone = true ∧ s.engine.isOpen = true ∧ s.engine.calls ≠ []

instance (cfg : Config) (s : State) : ∀ a, Decidable (LevelsFit cfg s a)
  | .insertOrderbook _ _ => isTrue trivial
  | .run _ => inferInstanceAs (Decidable (_ → _ → _ → _))

/-! ## The calls of a record -/

/-- The calls append one frame, header first. -/
structure FrameCalls (calls : List (List UInt8)) (header : List UInt8)
    (levels : List (List UInt8)) : Prop where
  eq : calls = header :: levels
  length_header : header.length = orderbookFraming.headerLength
  length_levels : levels.flatten.length = orderbookFraming.bodyLength header
  nonempty : ∀ bytes ∈ levels, bytes ≠ []

theorem priceLevelsBytes_ne_nil {levels : Vector PriceLevel kMaxOrderbookLevels} {count : UInt32}
    (hpos : count > 0) (hle : count.toNat ≤ kMaxOrderbookLevels) :
    priceLevelsBytes levels count ≠ [] := by
  have hlen := length_priceLevelsBytes levels hle
  have hpos' : 0 < count.toNat := UInt32.lt_iff_toNat_lt.mp hpos
  intro h
  rw [h, List.length_nil] at hlen
  omega

theorem length_optional_levels (levels : Vector PriceLevel kMaxOrderbookLevels) {count : UInt32}
    (hle : count.toNat ≤ kMaxOrderbookLevels) :
    (if count > 0 then [priceLevelsBytes levels count] else []).flatten.length =
      16 * count.toNat := by
  split
  next => rw [List.flatten_singleton, length_priceLevelsBytes levels hle]
  next hpos =>
    have : ¬0 < count.toNat := fun h => hpos (UInt32.lt_iff_toNat_lt.mpr h)
    rw [List.flatten_nil, List.length_nil]
    omega

theorem forall_mem_optional {P : List UInt8 → Prop} {c : Prop} [Decidable c] {call : List UInt8}
    (h : c → P call) : ∀ bytes ∈ if c then [call] else [], P bytes := by
  split
  next hc => exact List.forall_mem_singleton.mpr (h hc)
  next => exact List.forall_mem_nil _

theorem frameCalls_writeOrderbook {cfg : Config} {event : DepthUpdateEvent}
    (h : Storable cfg event) (localTs : UInt64) :
    ∃ header levels, FrameCalls (writeOrderbook event localTs) header levels := by
  obtain ⟨hbid, hask, -⟩ := h
  refine ⟨_, _, rfl, length_orderbookHeaderBytes event localTs, ?_, ?_⟩
  · rw [bodyLength_orderbookHeaderBytes, List.flatten_append, List.length_append, Nat.mul_add]
    congr 1
    · exact length_optional_levels event.bids hbid
    · exact length_optional_levels event.asks hask
  · refine List.forall_mem_append.mpr ⟨?_, ?_⟩
    · exact forall_mem_optional fun hpos => priceLevelsBytes_ne_nil hpos hbid
    · exact forall_mem_optional fun hpos => priceLevelsBytes_ne_nil hpos hask

/-! ## The states of a run -/

/-- Nothing of a record in progress is published. -/
structure Fresh (s : State) : Prop where
  whole : ∀ n, orderbookFraming.Whole (s.engine.payload n)
  calls : s.engine.isOpen = true → s.engine.calls ≠ [] →
    s.headerDone = false ∧ ∃ header levels, FrameCalls s.engine.calls header levels

/-- The current file ends with the header and some of the levels of the record in progress. -/
structure Underway (s : State) : Prop where
  headerDone : s.headerDone = true
  isOpen : s.engine.isOpen = true
  stage : s.engine.stage ≠ .reset
  calls : s.engine.calls ≠ []
  nonempty : ∀ bytes ∈ s.engine.calls, bytes ≠ []
  others : ∀ n, n ≠ s.engine.sequence → orderbookFraming.Whole (s.engine.payload n)
  current : ∃ whole header part, s.engine.payload s.engine.sequence = whole ++ (header ++ part) ∧
    orderbookFraming.Whole whole ∧ header.length = orderbookFraming.headerLength ∧
    (part ++ s.engine.calls.flatten).length = orderbookFraming.bodyLength header

/-- A file that the engine has left ends inside a record. -/
def Broken (s : State) : Prop :=
  ∃ n < s.engine.sequence, ¬orderbookFraming.Whole (s.engine.payload n)

def Good (s : State) : Prop := Fresh s ∨ Underway s

variable {cfg : Config} {s t : State}

theorem Underway.not_whole (h : Underway s) :
    ¬orderbookFraming.Whole (s.engine.payload s.engine.sequence) := by
  obtain ⟨whole, header, part, hpayload, hwhole, hheader, hbody⟩ := h.current
  obtain ⟨bytes, rest, hcalls⟩ := List.exists_cons_of_ne_nil h.calls
  have hpos : 0 < bytes.length :=
    List.length_pos_iff.mpr (h.nonempty bytes (hcalls ▸ List.mem_cons_self))
  rw [hpayload]
  refine hwhole.not_append_torn ⟨?_, ?_⟩
  · rw [List.length_append, hheader]
    exact Nat.le_add_right _ _
  · rw [List.take_left' hheader, ← hbody, hcalls]
    simp only [List.length_append, List.flatten_cons, hheader]
    omega

theorem Good.not_broken (h : Good s) : ¬Broken s := by
  rintro ⟨n, hn, hwhole⟩
  rcases h with h | h
  · exact hwhole (h.whole n)
  · exact hwhole (h.others n hn.ne)

theorem selfContained_iff_fresh (h : Good s ∨ Broken s) :
    SelfContained s.engine.disk ↔ Good s ∧ ¬Interrupted s := by
  constructor
  · intro hself
    rcases h with (hf | hp) | ⟨n, -, hwhole⟩
    · refine ⟨.inl hf, fun ⟨hdone, hopen, hcalls⟩ => ?_⟩
      cases hdone.symm.trans (hf.calls hopen hcalls).1
    · exact absurd (hself _) hp.not_whole
    · exact absurd (hself n) hwhole
  · rintro ⟨hf | hp, hint⟩
    · exact hf.whole
    · exact absurd ⟨hp.headerDone, hp.isOpen, hp.calls⟩ hint

/-! ## Steps -/

theorem Fresh.insertOrderbook {event : DepthUpdateEvent} (h : Fresh s) (localTs : UInt64)
    (hevent : Storable cfg event) :
    Fresh ⟨{ s.engine with calls := writeOrderbook event localTs }, false⟩ :=
  ⟨h.whole, fun _ _ => ⟨rfl, frameCalls_writeOrderbook hevent localTs⟩⟩

/-- The header, or a record without levels, is published. -/
theorem Fresh.publish (h : Fresh s) (hok : Ok s.engine) {bytes : List UInt8}
    {rest : List (List UInt8)} (hstage : s.engine.stage = .publish)
    (hcalls : s.engine.calls = bytes :: rest) :
    Good ⟨s.engine.publishBytes bytes rest, true⟩ := by
  have hopen := (hok.writing (.inr hstage)).1
  obtain ⟨-, header, levels, hframe⟩ := h.calls hopen (by rw [hcalls]; nofun)
  have hpayload := hok.payload_publishBytes hstage hcalls
  obtain ⟨rfl, rfl⟩ := List.cons.inj (hcalls.symm.trans hframe.eq)
  cases rest with
  | nil =>
    refine .inl ⟨fun n => ?_, fun _ hne => absurd rfl hne⟩
    rw [hpayload]
    rcases eq_or_ne n s.engine.sequence with rfl | hn
    · rw [Function.update_self]
      have := Framing.Whole.cons hframe.length_header hframe.length_levels .nil
      exact (h.whole _).append (by simpa using this)
    · rw [Function.update_of_ne hn]
      exact h.whole n
  | cons first rest =>
    refine .inr ⟨rfl, hopen, nofun, nofun, hframe.nonempty,
      fun n (hn : n ≠ s.engine.sequence) => ?_, ?_⟩
    · rw [hpayload, Function.update_of_ne hn]
      exact h.whole n
    · refine ⟨_, bytes, [], ?_, h.whole s.engine.sequence, hframe.length_header,
        hframe.length_levels⟩
      rw [hpayload, List.append_nil]
      exact Function.update_self ..

/-- Levels are published. -/
theorem Underway.publish (h : Underway s) (hok : Ok s.engine) {bytes : List UInt8}
    {rest : List (List UInt8)} (hstage : s.engine.stage = .publish)
    (hcalls : s.engine.calls = bytes :: rest) :
    Good ⟨s.engine.publishBytes bytes rest, true⟩ := by
  have hpayload := hok.payload_publishBytes hstage hcalls
  obtain ⟨whole, header, part, hcurrent, hwhole, hheader, hbody⟩ := h.current
  have hnew : (s.engine.publishBytes bytes rest).payload s.engine.sequence =
      whole ++ (header ++ (part ++ bytes)) := by
    rw [hpayload, Function.update_self, hcurrent]
    simp only [List.append_assoc]
  have hothers : ∀ n, n ≠ s.engine.sequence →
      orderbookFraming.Whole ((s.engine.publishBytes bytes rest).payload n) := fun n hn => by
    rw [hpayload, Function.update_of_ne hn]
    exact h.others n hn
  rw [hcalls, List.flatten_cons, ← List.append_assoc] at hbody
  cases rest with
  | nil =>
    refine .inl ⟨fun n => ?_, fun _ hne => absurd rfl hne⟩
    rcases eq_or_ne n s.engine.sequence with rfl | hn
    · rw [List.flatten_nil, List.append_nil] at hbody
      have hframe := Framing.Whole.cons hheader hbody .nil
      rw [List.append_nil] at hframe
      show orderbookFraming.Whole ((s.engine.publishBytes bytes []).payload s.engine.sequence)
      rw [hnew]
      exact hwhole.append hframe
    · exact hothers n hn
  | cons next rest =>
    refine .inr ⟨rfl, h.isOpen, nofun, nofun, fun b hb => ?_, hothers,
      ⟨whole, header, part ++ bytes, hnew, hwhole, hheader, hbody⟩⟩
    exact h.nonempty b (hcalls ▸ List.mem_cons_of_mem _ hb)

theorem Good.after {e : MmapStorageEngine.State} (h : Good ⟨e, s.headerDone⟩)
    (hcalls : e.calls = s.engine.calls) : Good (s.after e) := by
  simpa [State.after, hcalls] using h

theorem after_of_calls_cons {e : MmapStorageEngine.State} {bytes : List UInt8}
    (h : s.engine.calls = bytes :: e.calls) : s.after e = ⟨e, true⟩ := by
  simp [State.after, h]

/-- A file that the engine has left is not touched again. -/
theorem Broken.run (h : Broken s) (hok : Ok s.engine) {e : MmapStorageEngine.State}
    (he : Effect cfg s.engine e) : Broken (s.after e) := by
  obtain ⟨n, hn, hwhole⟩ := h
  cases he with
  | returns _ _ _ | fits _ _ _ _ _ => exact ⟨n, hn, hwhole⟩
  | rollFails _ _ _ _ _ | rolls _ _ _ _ _ => exact ⟨n, Nat.lt_succ_of_lt hn, hwhole⟩
  | resets _ =>
    refine ⟨n, hn, ?_⟩
    rwa [State.after, payload_resetHeader, Function.update_of_ne hn.ne]
  | copies hstage _ =>
    refine ⟨n, hn, ?_⟩
    rwa [State.after, hok.payload_copyBytes hstage]
  | publishes hstage hcalls =>
    refine ⟨n, hn, ?_⟩
    rwa [State.after, hok.payload_publishBytes hstage hcalls, Function.update_of_ne hn.ne]

/-- An operation outside a record, or on its header. -/
theorem Fresh.run (h : Fresh s) (hok : Ok s.engine) {e : MmapStorageEngine.State}
    (he : Effect cfg s.engine e) : Good (s.after e) := by
  cases he with
  | returns hstage hcalls hor =>
    refine .inl ⟨h.whole, fun hopen => ?_⟩
    -- an open engine returns at once only for an empty argument, which no record has
    obtain ⟨-, header, levels, hframe⟩ := h.calls hopen (by rw [hcalls]; nofun)
    obtain ⟨rfl, -⟩ := List.cons.inj (hcalls.symm.trans hframe.eq)
    rcases hor with hclosed | rfl
    · cases hclosed.symm.trans hopen
    · cases hframe.length_header
  | rollFails _ _ _ _ _ => exact .inl ⟨h.whole, nofun⟩
  | rolls _ _ hopen _ _ | fits _ _ hopen _ _ =>
    exact Good.after (.inl ⟨h.whole, fun _ => h.calls hopen⟩) rfl
  | resets _ =>
    refine Good.after (.inl ⟨fun n => ?_, h.calls⟩) rfl
    rw [payload_resetHeader]
    rcases eq_or_ne n s.engine.sequence with rfl | hn
    · rw [Function.update_self]
      exact .nil
    · rw [Function.update_of_ne hn]
      exact h.whole n
  | copies hstage _ =>
    refine Good.after (.inl ⟨fun n => ?_, h.calls⟩) rfl
    rw [hok.payload_copyBytes hstage]
    exact h.whole n
  | publishes hstage hcalls =>
    rw [after_of_calls_cons hcalls]
    exact h.publish hok hstage hcalls

/-- An operation on the levels of a record: the record is completed, or its file is left. -/
theorem Underway.run (h : Underway s) (hok : Ok s.engine) {e : MmapStorageEngine.State}
    (he : Effect cfg s.engine e) (mapped : Bool) :
    (LevelsFit cfg s (.run mapped) → Good (s.after e)) ∧
      (¬LevelsFit cfg s (.run mapped) → Broken (s.after e)) := by
  have hfits (hne : s.engine.stage ≠ .test) : LevelsFit cfg s (.run mapped) :=
    fun _ _ hstage => absurd hstage hne
  cases he with
  | returns _ hcalls hor =>
    rcases hor with hclosed | rfl
    · cases hclosed.symm.trans h.isOpen
    · exact absurd rfl (h.nonempty [] (hcalls ▸ List.mem_cons_self))
  | rollFails hstage hcalls hopen _ hroll | rolls hstage hcalls hopen _ hroll =>
    constructor
    · intro hfit
      exact absurd hroll (hfit h.headerDone hopen hstage _ (by rw [hcalls]; rfl))
    · intro _
      exact ⟨s.engine.sequence, Nat.lt_succ_self _, h.not_whole⟩
  | fits hstage hcalls _ _ hroll =>
    constructor
    · intro _
      exact Good.after (.inr ⟨h.headerDone, h.isOpen, nofun, h.calls, h.nonempty, h.others,
        h.current⟩) rfl
    · intro hnot
      refine absurd (fun _ _ _ bytes hbytes => ?_) hnot
      rw [hcalls] at hbytes
      cases hbytes
      exact hroll
  | resets hstage => exact absurd hstage h.stage
  | copies hstage _ =>
    refine ⟨fun _ => ?_, fun hnot => absurd (hfits (by rw [hstage]; nofun)) hnot⟩
    refine Good.after (.inr ⟨h.headerDone, h.isOpen, nofun, h.calls, h.nonempty, ?_, ?_⟩) rfl
    · rw [hok.payload_copyBytes hstage]
      exact h.others
    · rw [hok.payload_copyBytes hstage]
      exact h.current
  | publishes hstage hcalls =>
    refine ⟨fun _ => ?_, fun hnot => absurd (hfits (by rw [hstage]; nofun)) hnot⟩
    rw [after_of_calls_cons hcalls]
    exact h.publish hok hstage hcalls

/-- The condition concerns the levels of a record only. -/
theorem Fresh.levelsFit (h : Fresh s) {mapped : Bool} : LevelsFit cfg s (.run mapped) := by
  intro hdone hopen _ bytes hbytes
  have hcalls : s.engine.calls ≠ [] := fun hnil => by rw [hnil] at hbytes; cases hbytes
  cases hdone.symm.trans (h.calls hopen hcalls).1

/-! ## Runs -/

structure Inv (s : State) : Prop where
  ok : Ok s.engine
  state : Good s ∨ Broken s

theorem Inv.step {a : Action} (h : Inv s) (hs : Orderbook.step cfg s a = some t) :
    Inv t ∧ (Good t ↔ Good s ∧ LevelsFit cfg s a) := by
  cases a with
  | insertOrderbook event localTs =>
    simp only [Orderbook.step] at hs
    split at hs
    next hevent =>
      obtain ⟨e, he, rfl⟩ := Option.map_eq_some_iff.mp hs
      obtain ⟨-, hcalls, rfl, hok⟩ := h.ok.start he
      rcases h.state with (hf | hu) | hb
      · have hg := hf.insertOrderbook localTs hevent
        exact ⟨⟨hok, .inl (.inl hg)⟩, fun _ => ⟨.inl hf, trivial⟩, fun _ => .inl hg⟩
      · exact absurd hcalls hu.calls
      · refine ⟨⟨hok, .inr hb⟩, fun hg => absurd hb ?_, fun hg => absurd hb hg.1.not_broken⟩
        exact hg.not_broken
    next => cases hs
  | run mapped =>
    obtain ⟨e, he, rfl⟩ := Option.map_eq_some_iff.mp hs
    have heffect := step_effect he
    have hok := heffect.ok h.ok
    rcases h.state with (hf | hu) | hb
    · have hg := hf.run h.ok heffect
      exact ⟨⟨hok, .inl hg⟩, fun _ => ⟨.inl hf, hf.levelsFit⟩, fun _ => hg⟩
    · obtain ⟨hgood, hbroken⟩ := hu.run h.ok heffect mapped
      by_cases hfit : LevelsFit cfg s (.run mapped)
      · exact ⟨⟨hok, .inl (hgood hfit)⟩, fun _ => ⟨.inr hu, hfit⟩, fun _ => hgood hfit⟩
      · refine ⟨⟨hok, .inr (hbroken hfit)⟩, fun hg => ?_, fun hg => absurd hg.2 hfit⟩
        exact absurd (hbroken hfit) hg.not_broken
    · have hb' := hb.run h.ok heffect
      exact ⟨⟨hok, .inr hb'⟩, fun hg => absurd hb' hg.not_broken,
        fun hg => absurd hb hg.1.not_broken⟩

variable {disk : Nat → File} {as : List Action}

theorem inv_init (cfg : Config) (hdisk : SelfContained disk) :
    Inv (machine cfg disk).init ∧ Good (machine cfg disk).init := by
  have hgood : Good (machine cfg disk).init := .inl ⟨hdisk, fun _ hne => absurd rfl hne⟩
  exact ⟨⟨ok_openOrCreate _ _, .inl hgood⟩, hgood⟩

theorem exec_good_iff (hdisk : SelfContained disk)
    (hs : (machine cfg disk).exec (machine cfg disk).init as = some s) :
    Inv s ∧ (Good s ↔ (machine cfg disk).Along (LevelsFit cfg) (machine cfg disk).init as) := by
  obtain ⟨hinv, hgood⟩ := inv_init cfg hdisk
  constructor
  · exact (machine cfg disk).exec_invariant (C := fun _ _ => True)
      (fun _ _ _ h _ ht => (h.step ht).1) hinv (machine cfg disk).along_true hs
  · rw [(machine cfg disk).exec_iff (fun _ _ _ h ht => (h.step ht).1)
      (fun _ _ _ h ht => (h.step ht).2) hinv hs]
    exact and_iff_right hgood

/-- In every state of every run of an engine whose files have different names: all files are whole
just in case no level append has rolled so far and the run does not stand between the header and the
last levels of a record. -/
theorem selfContained_iff_levelsFit (hdisk : SelfContained disk)
    (hs : (machine cfg disk).exec (machine cfg disk).init as = some s) :
    SelfContained s.engine.disk ↔
      (machine cfg disk).Along (LevelsFit cfg) (machine cfg disk).init as ∧ ¬Interrupted s := by
  obtain ⟨hinv, hgood⟩ := exec_good_iff hdisk hs
  rw [selfContained_iff_fresh hinv.state, hgood]

theorem selfContained_zero : SelfContained fun _ => File.zero := fun _ => .nil

/-- Files with a payload of 122 bytes. -/
def shortFiles : Config := ⟨186, 4096⟩

def oneBid : DepthUpdateEvent := { (default : DepthUpdateEvent) with bidCount := 1 }

/-- A record of a header and one level, appended without a roll. -/
def oneRecord : List Action :=
  [.run true, .insertOrderbook oneBid 0, .run true, .run true, .run true, .run true, .run true,
    .run true]

theorem oneRecord_selfContained :
    ((machine shortFiles fun _ => .zero).exec (machine shortFiles fun _ => .zero).init
      oneRecord).map (fun s => ((s.engine.payload 0).length, s.engine.calls)) = some (72, []) ∧
    ∀ s ∈ (machine shortFiles fun _ => .zero).exec (machine shortFiles fun _ => .zero).init
      oneRecord, SelfContained s.engine.disk := by
  have hrun : ((machine shortFiles fun _ => .zero).exec (machine shortFiles fun _ => .zero).init
      oneRecord).map (fun s => ((s.engine.payload 0).length, s.engine.calls)) = some (72, []) := by
    decide
  refine ⟨hrun, fun s hs => ?_⟩
  rw [Option.mem_def.mp hs] at hrun
  have hcalls : s.engine.calls = [] := congrArg Prod.snd (Option.some.inj hrun)
  exact (selfContained_iff_levelsFit selfContained_zero hs).mpr
    ⟨by decide, fun h => h.2.2 hcalls⟩

/-- A record without levels, then one with a level: its header fits into the first file and its
level goes to the second one. -/
def splitRecord : List Action :=
  [.run true, .insertOrderbook default 0, .run true, .run true, .run true,
    .insertOrderbook oneBid 0, .run true, .run true, .run true,
    .run true, .run true, .run true, .run true]

theorem splitRecord_not_selfContained :
    ∃ s, (machine shortFiles fun _ => .zero).exec (machine shortFiles fun _ => .zero).init
        splitRecord = some s ∧
      s.engine.calls = [] ∧ ¬SelfContained s.engine.disk := by
  have hrun : ((machine shortFiles fun _ => .zero).exec (machine shortFiles fun _ => .zero).init
      splitRecord).map (fun s => s.engine.calls) = some [] := by decide
  obtain ⟨s, hs, hcalls⟩ := Option.map_eq_some_iff.mp hrun
  refine ⟨s, hs, hcalls, fun hself => ?_⟩
  obtain ⟨hinv, hgood⟩ := exec_good_iff selfContained_zero hs
  exact absurd (hgood.mp ((selfContained_iff_fresh hinv.state).mp hself).1) (by decide)

end Orderbook
end MmapBackend
end Sqc
