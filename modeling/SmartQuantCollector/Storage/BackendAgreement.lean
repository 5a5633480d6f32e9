import SmartQuantCollector.Storage.Backend.CsvBackend
import SmartQuantCollector.Storage.Backend.DolphinDBNoFailure
import SmartQuantCollector.Storage.Backend.MmapChannels

/-! # Which events the backends store

`StorageRouter` filters registrations by the two `persist_to_disk` flags; `Route*` hands every event
to the backend. The csv and the mmap backend look up the channel of an event and leave the event out
when it was not registered, so they store the events of the channels with both flags (`csvRun_log`,
`mmapRun_log`), the mmap backend as long as the names of its files are different (`OwnFiles`). The
DolphinDB backend uses its registry for the columns of a row only and stores every event. The three
agree exactly when every routed event belongs to a channel that was registered with both flags
(`agree_iff_forall_persisted`). -/

namespace Sqc
open DolphinDBBackend

namespace StorageRouter

/-- A call of `RegisterChannel`. -/
structure Registration where
  channelId : UInt32
  info : ChannelInfo
  persistToDisk : Bool

/-- The registrations of a start, with the `persist_to_disk` of the storage. -/
def registerAll {β : Type} (register : β → UInt32 → ChannelMeta → β) (persistToDisk : Bool)
    (regs : List Registration) (b : β) : β :=
  regs.foldl (fun b r =>
    if !persistToDisk || !r.persistToDisk then b else register b r.channelId (entry r.info)) b

/-- The channel was registered with both flags. -/
def Persisted (persistToDisk : Bool) (regs : List Registration) (channelId : UInt32) : Prop :=
  persistToDisk = true ∧ ∃ r ∈ regs, r.persistToDisk = true ∧ r.channelId = channelId

instance (persistToDisk : Bool) (regs : List Registration) (channelId : UInt32) :
    Decidable (Persisted persistToDisk regs channelId) :=
  inferInstanceAs (Decidable (_ ∧ _))

/-- What the csv and the mmap backend find when they start, and what is routed with the events. -/
structure Setting where
  fmt : DoubleFormat
  csvRoot : CsvBackend.Root
  /-- The `depth_level` of the channel info that comes with each event. -/
  depthLevel : Nat → UInt32
  /-- `output_root_` of the mmap backend. -/
  mmapRoot : List UInt8
  tree : MmapStorageEngine.Tree
  padding : Nat → MmapBackend.Padding
  pageSize : Nat
  pageSize_pos : 0 < pageSize

/-- The csv backend after the registrations and the events. -/
def csvRun (env : Setting) (persistToDisk : Bool) (regs : List Registration) (events : List Item) :
    Option CsvBackend.State :=
  events.foldlM (CsvBackend.insert env.fmt env.depthLevel)
    (registerAll (CsvBackend.registerChannel env.csvRoot) persistToDisk regs {})

/-- The mmap backend after the registrations. -/
def mmapStart (env : Setting) (persistToDisk : Bool) (regs : List Registration) :
    MmapBackend.State :=
  registerAll (MmapBackend.registerChannel env.mmapRoot) persistToDisk regs { tree := env.tree }

/-- The mmap backend after the registrations and the events. -/
def mmapRun (env : Setting) (persistToDisk : Bool) (regs : List Registration) (events : List Item) :
    Option MmapBackend.State :=
  events.foldlM (MmapBackend.insert env.pageSize env.padding) (mmapStart env persistToDisk regs)

/-- The events of the channels that were registered with both flags. -/
def persistedEvents (persistToDisk : Bool) (regs : List Registration) (events : List Item) :
    List Item :=
  events.filter fun x => Persisted persistToDisk regs x.record.channelId

/-- `output_path_` of the mmap engines of a channel. -/
def mmapPath (env : Setting) (r : Registration) : List UInt8 :=
  MmapBackend.channelPath env.mmapRoot (entry r.info)

/-- The channels that are persisted have files of their own: their paths leave room for the digits
of the sequence numbers, and different channels have different paths. -/
structure OwnFiles (env : Setting) (regs : List Registration) : Prop where
  nul_notMem : ∀ r ∈ regs, r.persistToDisk = true → 0 ∉ mmapPath env r
  length_le : ∀ r ∈ regs, r.persistToDisk = true →
    (mmapPath env r).length ≤ MmapStorageEngine.kMaxPath
  channelId_eq : ∀ r ∈ regs, r.persistToDisk = true → ∀ r' ∈ regs, r'.persistToDisk = true →
    mmapPath env r = mmapPath env r' → r.channelId = r'.channelId

/-- The three backends have stored the events of the channels with both flags, and no others. -/
structure Agree {ι : Type} (env : Setting) (persistToDisk : Bool) (regs : List Registration)
    (s : DolphinDBBackend.State ι) : Prop where
  csv : ∃ t, csvRun env persistToDisk regs s.handed = some t ∧
    t.log = persistedEvents persistToDisk regs s.handed ∧
    ∀ x ∈ t.log, ∃ w, t.stores x.record.channelId = some w ∧ CsvBackend.HasLine env.fmt w x
  mmap : ∃ t, mmapRun env persistToDisk regs s.handed = some t ∧
    t.log = persistedEvents persistToDisk regs s.handed ∧ ∀ x ∈ t.log, t.Stores env.padding x
  dolphindb : s.sent.Perm (persistedEvents persistToDisk regs s.handed)

/-! ## Registration -/

variable {β : Type} {register : β → UInt32 → ChannelMeta → β} {persistToDisk : Bool}
  {regs : List Registration}

/-- A property that the registrations of a channel make true holds after the registrations if it did
before or if the channel was registered with both flags. -/
theorem registerAll_iff (has : β → Prop) {channelId : UInt32}
    (hregister : ∀ b id entry, has (register b id entry) ↔ id = channelId ∨ has b) (b : β) :
    has (registerAll register persistToDisk regs b) ↔
      Persisted persistToDisk regs channelId ∨ has b := by
  induction regs generalizing b with
  | nil => exact ⟨.inr, fun hor => hor.resolve_left fun ⟨_, r, hr, _⟩ => by cases hr⟩
  | cons r regs ih =>
    have hcons : Persisted persistToDisk (r :: regs) channelId ↔
        (persistToDisk = true ∧ r.persistToDisk = true ∧ r.channelId = channelId) ∨
          Persisted persistToDisk regs channelId := by
      simp only [Persisted, List.mem_cons, exists_eq_or_imp, and_or_left]
    rw [registerAll, List.foldl_cons, ← registerAll, ih, hcons]
    split
    next hskip =>
      have hnot : ¬(persistToDisk = true ∧ r.persistToDisk = true ∧ r.channelId = channelId) := by
        rintro ⟨rfl, hr, -⟩
        rw [hr] at hskip
        cases hskip
      rw [or_iff_right hnot]
    next hboth =>
      have hflags : persistToDisk = true ∧ r.persistToDisk = true := by simpa using hboth
      rw [hregister, and_iff_right hflags.1, and_iff_right hflags.2, or_left_comm, or_assoc]

theorem registerAll_inv {I : β → Prop} {b : β} (hb : I b)
    (hregister : ∀ b, ∀ r ∈ regs, r.persistToDisk = true → I b →
      I (register b r.channelId (entry r.info))) :
    I (registerAll register persistToDisk regs b) := by
  induction regs generalizing b with
  | nil => exact hb
  | cons r regs ih =>
    rw [registerAll, List.foldl_cons, ← registerAll]
    refine ih ?_ fun b r' hr' => hregister b r' (List.mem_cons_of_mem _ hr')
    split
    next => exact hb
    next hboth =>
      have hflags : persistToDisk = true ∧ r.persistToDisk = true := by simpa using hboth
      exact hregister b r List.mem_cons_self hflags.2 hb

/-! ## Backends with a store for each channel -/

section Keyed

variable {κ σ : Type} [DecidableEq κ]

/-- Registering a channel puts stores under the keys of its events. -/
structure Registers (register : β → UInt32 → ChannelMeta → β)
    (view : β → KeyedStores.State κ σ Item) (key : Item → κ) : Prop where
  log : ∀ b id entry, (view (register b id entry)).log = (view b).log
  isSome : ∀ b id entry (x : Item), ((view (register b id entry)).stores (key x)).isSome = true ↔
    id = x.record.channelId ∨ ((view b).stores (key x)).isSome = true

/-- Such a backend stores the events of the channels with both flags. -/
theorem Registers.insertAll {view : β → KeyedStores.State κ σ Item} {key : Item → κ}
    {I : σ → Prop} {append : σ → Item → Option σ} {Holds : σ → Item → Prop}
    (hreg : Registers register view key) (happ : KeyedStores.Appends append I Holds) {b : β}
    (hb : view b = {})
    (hinv : ∀ k v, (view (registerAll register persistToDisk regs b)).stores k = some v → I v)
    (events : List Item) :
    ∃ s, KeyedStores.insertAll key append (view (registerAll register persistToDisk regs b))
        events = some s ∧ s.log = persistedEvents persistToDisk regs events ∧
      ∀ x ∈ s.log, ∃ v, s.stores (key x) = some v ∧ Holds v x := by
  have hnil : (view (registerAll register persistToDisk regs b)).log = [] :=
    registerAll_inv (I := fun b => (view b).log = []) (by rw [hb])
      fun b r _ _ h => (hreg.log b _ _).trans h
  obtain ⟨s, hs, hholds, hlog⟩ :=
    KeyedStores.insertAll_spec happ ⟨hinv, hnil ▸ List.forall_mem_nil _⟩ events
  refine ⟨s, hs, ?_, hholds.holds⟩
  rw [hlog, hnil, List.nil_append]
  refine List.filter_congr fun x _ => ?_
  rw [Bool.eq_iff_iff, decide_eq_true_iff]
  refine (registerAll_iff (fun b => ((view b).stores (key x)).isSome = true)
    (fun b id entry => hreg.isSome b id entry x) b).trans ?_
  rw [hb]
  exact ⟨fun hor => hor.resolve_right nofun, .inl⟩

end Keyed

theorem csv_registers (root : CsvBackend.Root) :
    Registers (CsvBackend.registerChannel root) id (·.record.channelId) where
  log _ _ _ := KeyedStores.emplace_log ..
  isSome b channelId entry x := by
    rw [@eq_comm _ channelId]
    exact KeyedStores.isSome_emplace ..

/-- The csv backend stores the events of the channels with both flags, each of them with its line in
a file of its channel. -/
theorem csvRun_log (env : Setting) (persistToDisk : Bool) (regs : List Registration)
    (events : List Item) :
    ∃ s, csvRun env persistToDisk regs events = some s ∧
      s.log = persistedEvents persistToDisk regs events ∧
      ∀ x ∈ s.log, ∃ w, s.stores x.record.channelId = some w ∧ CsvBackend.HasLine env.fmt w x :=
  (csv_registers env.csvRoot).insertAll (CsvBackend.appends env.fmt env.depthLevel) rfl
    (registerAll_inv
      (I := fun b : CsvBackend.State => ∀ k v, b.stores k = some v → CsvBackend.AllOpen v)
      (fun _ _ h => nomatch h)
      fun _ _ _ _ h => KeyedStores.forall_emplace h (CsvBackend.allOpen_create _)) events

theorem mmap_registers (root : List UInt8) :
    Registers (MmapBackend.registerChannel root) MmapBackend.State.view MmapBackend.engineKey where
  log s id entry := by
    have hopen (s : MmapBackend.State) (path : List UInt8) (kind : EventKind) :
        (MmapBackend.openEngine s path kind id).log = s.log := by
      unfold MmapBackend.openEngine
      split <;> rfl
    exact (hopen ..).trans ((hopen ..).trans (hopen ..))
  isSome s id entry x := by
    simp only [MmapBackend.State.view, Option.isSome_map, MmapBackend.registerChannel,
      MmapBackend.isSome_openEngine, MmapBackend.engineKey, Prod.mk.injEq, @eq_comm _ id]
    cases x.record.kind <;> simp

section Mmap
open MmapBackend MmapStorageEngine

variable (env : Setting) (persistToDisk : Bool) (regs : List Registration)

/-- The engines have had no events. -/
theorem opened_mmapStart : ∀ key e, (mmapStart env persistToDisk regs).engines key = some e →
    Opened (mmapStart env persistToDisk regs).tree e :=
  registerAll_inv (I := fun s : MmapBackend.State =>
      ∀ key e, s.engines key = some e → Opened s.tree e) (fun _ _ h => nomatch h)
    fun _ _ _ _ h => forall_opened_openEngine (forall_opened_openEngine
      (forall_opened_openEngine h))

/-- The engines are those of the channels with both flags. -/
theorem loc_mmapStart : ∀ key e, (mmapStart env persistToDisk regs).engines key = some e →
    ∃ r ∈ regs, r.persistToDisk = true ∧ r.channelId = key.2 ∧ e.loc = ⟨mmapPath env r, key.1⟩ := by
  refine registerAll_inv (I := fun s : MmapBackend.State => ∀ key e, s.engines key = some e →
      ∃ r ∈ regs, r.persistToDisk = true ∧ r.channelId = key.2 ∧ e.loc = ⟨mmapPath env r, key.1⟩)
    (fun _ _ h => nomatch h) fun s r hr hflag h => ?_
  exact forall_openEngine (forall_openEngine (forall_openEngine h ⟨r, hr, hflag, rfl, rfl⟩)
    ⟨r, hr, hflag, rfl, rfl⟩) ⟨r, hr, hflag, rfl, rfl⟩

variable {env persistToDisk regs}

theorem OwnFiles.ownNames (h : OwnFiles env regs) :
    OwnNames (mmapStart env persistToDisk regs) := by
  have hfits (r : Registration) (hr : r ∈ regs) (hflag : r.persistToDisk = true) :
      Fits (mmapPath env r) :=
    ⟨h.nul_notMem r hr hflag, getLast?_ensureTrailingSlash _, h.length_le r hr hflag⟩
  intro key key' e e' he he' m hm n hn hname
  obtain ⟨r, hr, hflag, hid, hloc⟩ := loc_mmapStart env persistToDisk regs key e he
  obtain ⟨r', hr', hflag', hid', hloc'⟩ := loc_mmapStart env persistToDisk regs key' e' he'
  rw [hloc, hloc'] at hname
  obtain ⟨hpath, hkind, hsequence⟩ :=
    makeFileName_inj (hfits r hr hflag) (hfits r' hr' hflag') hm hn hname
  have hchannel := h.channelId_eq r hr hflag r' hr' hflag' hpath
  exact ⟨Prod.ext hkind (hid ▸ hid' ▸ hchannel), hsequence⟩

/-- The mmap backend stores the events of the channels with both flags, each of them with its bytes
in a file of its kind and channel. -/
theorem mmapRun_log (hown : OwnFiles env regs) {events : List Item}
    (hfew : events.length ≤ kMaxEvents) :
    ∃ s, mmapRun env persistToDisk regs events = some s ∧
      s.log = persistedEvents persistToDisk regs events ∧ ∀ x ∈ s.log, s.Stores env.padding x := by
  have hwritten : ∀ key v, (mmapStart env persistToDisk regs).view.stores key = some v →
      Written 0 v := by
    intro key v hv
    obtain ⟨e, he, rfl⟩ := Option.map_eq_some_iff.mp hv
    exact (opened_mmapStart env persistToDisk regs key e he).written
  obtain ⟨k, hk, hlog, hholds⟩ := (mmap_registers env.mmapRoot).insertAll
    (appends env.padding env.pageSize_pos) rfl (fun key v hv => (hwritten key v hv).calling) events
  obtain ⟨s, hs, hsim, hle⟩ := insertAll_sim env.padding env.pageSize_pos hown.ownNames
    (sim_view _) hwritten ((Nat.zero_add _).le.trans hfew) hk
  refine ⟨s, hs, hsim.log.trans hlog, fun x hx => ?_⟩
  obtain ⟨v, hv, hbytes⟩ := hholds x (hsim.log ▸ hx)
  exact hsim.stores env.padding hv (hle _ _ hv) hbytes

end Mmap

/-! ## The three backends -/

/-- After a run without failures, with files of their own for the channels, the three backends have
stored the events of the channels with both flags, and no others, if and only if every event belongs
to such a channel. -/
theorem agree_iff_forall_persisted {ι : Type} [Fintype ι] [DecidableEq ι]
    {cfg : DolphinDBBackend.Config} {as : List (Action ι)} {s : DolphinDBBackend.State ι}
    {env : Setting} (hown : OwnFiles env regs) (hfew : s.handed.length ≤ MmapBackend.kMaxEvents)
    (hC : (machine cfg ι true).Along (NoFailure cfg) (.init ι true) as)
    (hrun : (machine cfg ι true).exec (.init ι true) as = some s) (hcl : s.closing = .closed) :
    Agree env persistToDisk regs s ↔
      ∀ x ∈ s.handed, Persisted persistToDisk regs x.record.channelId := by
  have hsent := sent_perm_handed hC hrun hcl
  constructor
  · intro h x hx
    have hlength := (hsent.symm.trans h.dolphindb).length_eq
    exact of_decide_eq_true (List.length_filter_eq_length_iff.mp hlength.symm x hx)
  · intro h
    have hall : persistedEvents persistToDisk regs s.handed = s.handed :=
      List.filter_eq_self.mpr fun x hx => decide_eq_true (h x hx)
    refine ⟨csvRun_log env persistToDisk regs s.handed, mmapRun_log hown hfew, ?_⟩
    rw [hall]
    exact hsent

section Samples

def sampleSetting : Setting where
  fmt := .shortest
  csvRoot _ _ _ _ := none
  depthLevel _ := 5
  mmapRoot := MmapStorageEngine.ascii "/data/mmap".toList
  tree _ := .zero
  padding _ := ⟨Vector.replicate 4 0, [], Nat.zero_le _⟩
  pageSize := 4096
  pageSize_pos := Nat.succ_pos _

/-- The registration of channel 0, with a flag for its symbol. -/
def registerZero (persistToDisk : Bool) : Registration :=
  ⟨0, { exchange := "binance", symbol := "BTCUSDT" }, persistToDisk⟩

/-- A trade of November 2023. -/
def sampleTrade : Record :=
  .tick { (default : TickData) with exchangeTimestamp := 1700000000000000 }

/-- A book ticker of November 2023. -/
def sampleQuote : Record :=
  .bookTicker { (default : BookTickerEvent) with exchangeTimestamp := 1700000000000000 }

/-- An insert that goes to the database at once. -/
def insertAndSend (r : Record) : List (Action Unit) :=
  [.insert () r 0 0, .run () {}, .run () {}, .run () {}, .send r.kind 0]

/-- A trade that stays in the buffer until `FlushAndClose`, an order book and a book ticker. -/
def oneOfEach : List (Action Unit) :=
  [.insert () sampleTrade 0 0] ++ insertAndSend sampleBook ++ insertAndSend sampleQuote ++
    [.close (), .close (), .run () {}, .run () {}, .run () {}, .send .tick 0] ++
    List.replicate 6 (.close ())

theorem sample_ownFiles : OwnFiles sampleSetting [registerZero true] := by
  have hpath : mmapPath sampleSetting (registerZero true) =
      MmapStorageEngine.ascii "/data/mmap/binance/spot/BTCUSDT/".toList := by decide +kernel
  refine ⟨?_, ?_, ?_⟩
  · simp only [List.forall_mem_singleton, hpath]
    decide
  · simp only [List.forall_mem_singleton, hpath]
    decide
  · simp only [List.forall_mem_singleton, implies_true]

theorem registeredChannel_agree :
    ∃ s, (machine sampleConfig Unit true).exec (.init Unit true) oneOfEach = some s ∧
      s.handed.map Item.seq = [0, 1, 2] ∧ Agree sampleSetting true [registerZero true] s := by
  have hrun : ((machine sampleConfig Unit true).exec (.init Unit true) oneOfEach).map
      (fun s => (s.closing, s.handed.map Item.seq, s.handed.map (·.record.channelId))) =
      some (.closed, [0, 1, 2], [0, 0, 0]) := rfl
  obtain ⟨s, hs, h⟩ := Option.map_eq_some_iff.mp hrun
  obtain ⟨hcl, h⟩ := Prod.mk.inj h
  obtain ⟨hseq, hids⟩ := Prod.mk.inj h
  have hfew : s.handed.length ≤ MmapBackend.kMaxEvents := by
    rw [← List.length_map Item.seq, hseq]
    decide
  refine ⟨s, hs, hseq, ?_⟩
  refine (agree_iff_forall_persisted sample_ownFiles hfew (by decide) hs hcl).mpr fun x hx => ?_
  have hmem := List.mem_map_of_mem (f := (·.record.channelId)) hx
  rw [hids] at hmem
  have hzero : x.record.channelId = 0 := by simpa using hmem
  rw [hzero]
  decide

/-- An order book of a channel whose symbol is not to be persisted is sent to DolphinDB and to
nothing else. -/
theorem unpersisted_book_in_dolphindb :
    ∃ s, (machine sampleConfig Unit true).exec (.init Unit true)
      (insertAndSend sampleBook ++ closeAll) = some s ∧
      (machine sampleConfig Unit true).Along (NoFailure sampleConfig) (.init Unit true)
        (insertAndSend sampleBook ++ closeAll) ∧
      s.closing = .closed ∧ s.sent.map Item.seq = [0] ∧
      (csvRun sampleSetting true [registerZero false] s.handed).map (·.log.length) = some 0 ∧
      (mmapRun sampleSetting true [registerZero false] s.handed).map (·.log.length) = some 0 ∧
      ¬Agree sampleSetting true [registerZero false] s := by
  refine ⟨_, rfl, by decide, rfl, rfl, rfl, rfl, fun h => ?_⟩
  have hlength := h.dolphindb.length_eq
  revert hlength
  decide

end Samples

end StorageRouter
end Sqc
