import SmartQuantCollector.Config
import SmartQuantCollector.Lib.FallibleLoop
import SmartQuantCollector.Storage.Client.TableRows

/-! # Start-up (`src/main.cpp`)

The part of `main` that fills the registries: `BuildCryptoSubsystem`, `FreezeChannels` and, inside
`CreateRithmicManager`, `RegisterChannels`, in this order. A function that can throw runs in
`StartupM`: what it did before the exception stays done, which matters for `RegisterChannels`, whose
exceptions are caught and logged.

`persistedResolvable_iff` says for which configurations the storage knows every persisted
channel afterwards. -/

namespace Sqc
open FallibleLoop

/-- The two registries. -/
structure World where
  channels : ChannelRegistry := fun _ => none
  storage : StorageRouter

abbrev StartupM := ExceptT String (StateM World)

namespace Startup

/-- The `ChannelInfo` that both pipelines fill in. -/
def symbolInfo (exchange : String) (type : ChannelType) (sym : SymbolConfig) : ChannelInfo where
  exchange := exchange
  type := type
  symbol := sym.name
  depthLevel := sym.depthLevel

/-- The two calls that both pipelines make for a symbol. -/
def registerSymbol (info : ChannelInfo) (persistToDisk : Bool) : StartupM Unit := do
  let w ← get
  let (channels, id) ← w.channels.register info
  set { w with channels, storage := w.storage.registerChannel id info persistToDisk }

/-! ## The crypto pipeline -/

/-- The registrations of `BuildCryptoChannels`. -/
def buildCryptoChannels (cfg : RootConfig) : StartupM Unit :=
  forM cfg.exchanges fun ex => do
    if ex.enabled then
      forM ex.channels fun ch => do
        let type ← parseChannelType ch.type
        match getAdapter ex.name type with
        | none => pure ()
        | some adapter =>
          forM ch.symbols fun sym => do
            if sym.enabled then
              registerSymbol (symbolInfo ex.name adapter.channelType sym) sym.persistToDisk

/-- `BuildCryptoSubsystem`; `none` when `main` gives up. -/
def buildCryptoSubsystem (cfg : RootConfig) (w : World) : Option World :=
  if cfg.parserCores.isEmpty then none
  else
    match (buildCryptoChannels cfg).run.run w with
    | (.ok (), w) => some w
    | (.error _, _) => none

/-! ## The Rithmic pipeline -/

/-- The loop of `RithmicProcessManager::RegisterChannels`. -/
def registerFutures (cfg : RootConfig) : StartupM Unit :=
  forM cfg.exchanges fun ex => do
    if ex.enabled && ex.channels.any (·.type == "futures") then
      forM ex.channels fun ch => do
        if ch.type == "futures" then
          forM ch.symbols fun sym => do
            if sym.enabled then
              registerSymbol (symbolInfo ex.name .futures sym) sym.persistToDisk

/-- `RegisterChannels`: an exception ends the loop, and only that. -/
def registerChannels (cfg : RootConfig) (w : World) : World :=
  ((registerFutures cfg).run.run w).2

/-! ## `main` -/

def startup (cfg : RootConfig) : Option World := do
  let w ← buildCryptoSubsystem cfg { storage := { persistToDisk := cfg.persistToDisk } }
  let w := { w with storage := w.storage.freezeChannels }
  return registerChannels cfg w

/-! ## Persisted channels -/

/-- A symbol of the configuration as one of the pipelines handles it. -/
structure Entry where
  info : ChannelInfo
  persistToDisk : Bool

/-- The enabled symbols of enabled exchanges that have an adapter. -/
def cryptoEntries (cfg : RootConfig) : List Entry :=
  (cfg.exchanges.filter (·.enabled)).flatMap fun ex =>
    ex.channels.flatMap fun ch =>
      match (parseChannelType ch.type).toOption.bind (getAdapter ex.name) with
      | none => []
      | some adapter =>
        (ch.symbols.filter (·.enabled)).map fun sym =>
          ⟨symbolInfo ex.name adapter.channelType sym, sym.persistToDisk⟩

/-- The enabled symbols of enabled exchanges under a channel of type futures. -/
def rithmicEntries (cfg : RootConfig) : List Entry :=
  (cfg.exchanges.filter (·.enabled)).flatMap fun ex =>
    (ex.channels.filter (·.type == "futures")).flatMap fun ch =>
      (ch.symbols.filter (·.enabled)).map fun sym =>
        ⟨symbolInfo ex.name .futures sym, sym.persistToDisk⟩

/-- The symbols of `rithmicEntries` with the exchange and channel they stand under. -/
def futuresSymbols (cfg : RootConfig) : List (ExchangeConfig × ChannelConfig × SymbolConfig) :=
  (cfg.exchanges.filter (·.enabled)).flatMap fun ex =>
    (ex.channels.filter (·.type == "futures")).flatMap fun ch =>
      (ch.symbols.filter (·.enabled)).map fun sym => (ex, ch, sym)

/-- The storage knows the channel, and the rows of its events carry the channel's values. -/
structure Resolved (reg : StorageChannelRegistry) (info : ChannelInfo) : Prop where
  found : reg.find info.channelId =
    some ⟨info.exchange, channelTypeName info.type, info.symbol, info.depthLevel⟩
  trades : ∀ t : TickData, t.channelId = info.channelId →
    (tradeRow reg t).toChannelColumns =
      ⟨info.symbol, info.exchange, channelTypeName info.type⟩
  orderbook : ∀ (event : DepthUpdateEvent) (localTs : UInt64), event.channelId = info.channelId →
    (orderbookRow reg event localTs).toChannelColumns =
      ⟨info.symbol, info.exchange, channelTypeName info.type⟩ ∧
    (orderbookRow reg event localTs).bidPrices.length = storedLevels info.depthLevel
  bookTicker : ∀ event : BookTickerEvent, event.channelId = info.channelId →
    (bookTickerRow reg event).toChannelColumns =
      ⟨info.symbol, info.exchange, channelTypeName info.type⟩

def PersistedResolvable (cfg : RootConfig) (w : World) : Prop :=
  ∀ e ∈ cryptoEntries cfg ++ rithmicEntries cfg, e.persistToDisk = true →
    Resolved w.storage.registry e.info

/-- Every channel of an enabled exchange is of one of the three types. -/
def KnownTypes (cfg : RootConfig) : Prop :=
  ∀ ex ∈ cfg.exchanges, ex.enabled = true →
    ∀ ch ∈ ex.channels, ch.type ∈ ["spot", "perpetual", "futures"]

/-- No two different channels have one id. -/
def NoCollision (cfg : RootConfig) : Prop :=
  ∀ a ∈ cryptoEntries cfg ++ rithmicEntries cfg, ∀ b ∈ cryptoEntries cfg ++ rithmicEntries cfg,
    a.info.channelId = b.info.channelId → a.info.SameChannel b.info

def NoPersistedFutures (cfg : RootConfig) : Prop :=
  ∀ ex ∈ cfg.exchanges, ex.enabled = true → ∀ ch ∈ ex.channels, ch.type = "futures" →
    ∀ sym ∈ ch.symbols, sym.enabled = true → sym.persistToDisk = false

/-- Persisted symbols that stand for one channel ask for the same depth. -/
def DepthsAgree (cfg : RootConfig) : Prop :=
  ∀ a ∈ cryptoEntries cfg, ∀ b ∈ cryptoEntries cfg, a.persistToDisk = true →
    b.persistToDisk = true → a.info.SameChannel b.info → a.info.depthLevel = b.info.depthLevel

/-! ## The loops as one list of registrations -/

section Loops

variable {m : Type → Type} [Monad m] [LawfulMonad m]

/-- The loop over the futures symbols of a configuration. -/
theorem forM_futuresSymbols (cfg : RootConfig)
    (f : ExchangeConfig → ChannelConfig → SymbolConfig → m PUnit) :
    (forM cfg.exchanges fun ex => if ex.enabled = true then
      forM ex.channels fun ch => if (ch.type == "futures") = true then
        forM ch.symbols fun sym => if sym.enabled = true then f ex ch sym else pure ⟨⟩
      else pure ⟨⟩
    else pure ⟨⟩) = forM (futuresSymbols cfg) fun t => f t.1 t.2.1 t.2.2 := by
  rw [futuresSymbols, forM_flatMap, forM_filter]
  apply forM_congr
  intro ex _
  rw [forM_flatMap, forM_filter]
  congr 1
  apply forM_congr
  intro ch _
  rw [List.forM_map, forM_filter]

/-- Exchanges without a channel of type futures may be skipped. -/
theorem forM_futures_any (channels : List ChannelConfig) (f : ChannelConfig → m PUnit)
    (enabled : Bool) :
    (if (enabled && channels.any (·.type == "futures")) = true then
      forM channels fun ch => if (ch.type == "futures") = true then f ch else pure ⟨⟩
    else pure ⟨⟩) =
    if enabled = true then
      forM channels fun ch => if (ch.type == "futures") = true then f ch else pure ⟨⟩
    else pure ⟨⟩ := by
  cases enabled with
  | false => rfl
  | true =>
    cases hany : channels.any (·.type == "futures") with
    | true => rfl
    | false =>
      have hnone : channels.filter (·.type == "futures") = [] :=
        List.filter_eq_nil_iff.mpr (List.any_eq_false.mp hany)
      rw [← forM_filter, hnone]
      rfl

end Loops

def registerEntry (e : Entry) : StartupM Unit := registerSymbol e.info e.persistToDisk

variable {cfg : RootConfig}

theorem parseChannelType_of_mem {s : String} (h : s ∈ ["spot", "perpetual", "futures"]) :
    ∃ type, parseChannelType s = .ok type := by
  simp only [List.mem_cons, List.not_mem_nil, or_false] at h
  rcases h with rfl | rfl | rfl
  · exact ⟨_, rfl⟩
  · exact ⟨_, rfl⟩
  · exact ⟨_, rfl⟩

theorem buildCryptoChannels_eq (h : KnownTypes cfg) :
    buildCryptoChannels cfg = forM (cryptoEntries cfg) registerEntry := by
  rw [cryptoEntries, forM_flatMap, forM_filter, buildCryptoChannels]
  apply forM_congr
  intro ex hex
  split
  · next hen =>
    rw [forM_flatMap]
    apply forM_congr
    intro ch hch
    obtain ⟨type, htype⟩ := parseChannelType_of_mem (h ex hex hen ch hch)
    rw [htype]
    change (match getAdapter ex.name type with | none => _ | some adapter => _) = _
    simp only [Except.toOption, Option.bind_some]
    cases getAdapter ex.name type with
    | none => rfl
    | some adapter => rw [List.forM_map, forM_filter]; rfl
  · rfl

theorem rithmicEntries_eq (cfg : RootConfig) :
    rithmicEntries cfg = (futuresSymbols cfg).map fun t =>
      ⟨symbolInfo t.1.name .futures t.2.2, t.2.2.persistToDisk⟩ := by
  simp only [rithmicEntries, futuresSymbols, List.map_flatMap, List.map_map, Function.comp_def]

theorem registerFutures_eq (cfg : RootConfig) :
    registerFutures cfg = forM (rithmicEntries cfg) registerEntry := by
  rw [rithmicEntries_eq, List.forM_map, registerFutures]
  simp only [forM_futures_any]
  exact forM_futuresSymbols cfg fun ex _ sym =>
    registerSymbol (symbolInfo ex.name .futures sym) sym.persistToDisk

/-! ## What the registrations leave behind -/

/-- The storage after a list of registrations. -/
def registerAll (entries : List Entry) (router : StorageRouter) : StorageRouter :=
  entries.foldl (fun router e => router.registerChannel e.info.channelId e.info e.persistToDisk)
    router

theorem registerAll_cons (e : Entry) (entries : List Entry) (router : StorageRouter) :
    registerAll (e :: entries) router =
      registerAll entries
        (router.registerChannel e.info.channelId e.info e.persistToDisk) := rfl

/-- Every channel of the registry stands for one of the entries. -/
def Known (entries : List Entry) (channels : ChannelRegistry) : Prop :=
  ∀ ⦃i info⦄, channels i = some info →
    ∃ e ∈ entries, i = e.info.channelId ∧ info.SameChannel e.info

theorem registerEntry_run (e : Entry) (w : World) :
    (registerEntry e).run.run w =
      match w.channels.register e.info with
      | .ok (channels, id) => (.ok (), { w with
          channels
          storage := w.storage.registerChannel id e.info e.persistToDisk })
      | .error err => (.error err, w) := by
  change ((liftM (w.channels.register e.info) : StartupM _) >>= fun r => set { w with
    channels := r.1
    storage := w.storage.registerChannel r.2 e.info e.persistToDisk }).run.run w = _
  cases w.channels.register e.info with
  | error err => rfl
  | ok r => rfl

/-- A registration that meets no collision. -/
theorem register_of_known (channels : ChannelRegistry) (info : ChannelInfo)
    (h : ∀ old, channels info.channelId = some old → old.SameChannel info) :
    ∃ channels', channels.register info = .ok (channels', info.channelId) ∧
      ∀ i new, channels' i = some new →
        channels i = some new ∨ (i = info.channelId ∧ new.SameChannel info) := by
  rcases channels.register_cases info with ⟨-, -, -, hreg⟩ | ⟨-, hreg⟩ | ⟨old, -, hold, hne, -⟩
  · exact ⟨channels, hreg, fun i new hi => .inl hi⟩
  · refine ⟨_, hreg, fun i new hi => ?_⟩
    rw [Function.update_apply] at hi
    split at hi
    · next heq =>
      cases hi
      exact .inr ⟨heq, rfl, rfl, rfl⟩
    · exact .inl hi
  · exact absurd (h old hold) hne

/-- Without collisions the registrations all succeed. -/
theorem forM_registerEntry {done entries : List Entry}
    (hcol : ∀ a ∈ done ++ entries, ∀ b ∈ done ++ entries,
      a.info.channelId = b.info.channelId → a.info.SameChannel b.info)
    {w : World} (hw : Known done w.channels) :
    ∃ channels, (forM entries registerEntry : StartupM Unit).run.run w =
        (.ok (), ⟨channels, registerAll entries w.storage⟩) ∧
      Known (done ++ entries) channels := by
  induction entries generalizing done w with
  | nil => exact ⟨w.channels, rfl, by rwa [List.append_nil]⟩
  | cons e entries ih =>
    have he : e ∈ done ++ e :: entries := List.mem_append_right _ List.mem_cons_self
    obtain ⟨channels, hreg, hnew⟩ := register_of_known w.channels e.info (by
      intro old hold
      obtain ⟨a, ha, hid, hsame⟩ := hw hold
      have := hcol a (List.mem_append_left _ ha) e he hid.symm
      exact ⟨hsame.1.trans this.1, hsame.2.1.trans this.2.1, hsame.2.2.trans this.2.2⟩)
    let w' : World :=
      ⟨channels, w.storage.registerChannel e.info.channelId e.info e.persistToDisk⟩
    have hknown : Known (done ++ [e]) w'.channels := by
      intro i info hi
      rcases hnew i info hi with hi | ⟨hid, hsame⟩
      · obtain ⟨a, ha, h⟩ := hw hi
        exact ⟨a, List.mem_append_left _ ha, h⟩
      · exact ⟨e, List.mem_append_right _ List.mem_cons_self, hid, hsame⟩
    have happ : done ++ [e] ++ entries = done ++ e :: entries := by simp
    obtain ⟨channels', hrun, hk⟩ := ih (by rwa [happ]) hknown
    refine ⟨channels', ?_, by rwa [happ] at hk⟩
    have hstep : (registerEntry e).run.run w = (.ok (), w') := by rw [registerEntry_run, hreg]
    rw [List.forM_cons, ExceptT.run_bind, StateT.run_bind, hstep]
    exact hrun

/-! ## The storage after start-up -/

section Storage

variable {router : StorageRouter} {entries : List Entry} {i : UInt32} {entry : ChannelMeta}

theorem registerChannel_frozen (h : router.registry.frozen = true) (info : ChannelInfo) (p : Bool) :
    router.registerChannel i info p = router := by
  simp only [StorageRouter.registerChannel, StorageChannelRegistry.register, if_pos h, ite_self]

theorem registerAll_frozen (h : router.registry.frozen = true) :
    registerAll entries router = router := by
  induction entries with
  | nil => rfl
  | cons e entries ih => rw [registerAll_cons, registerChannel_frozen h]; exact ih

/-- A registration on an open router: the entry of a persisted symbol replaces what was there. -/
theorem registerChannel_open (hp : router.persistToDisk = true)
    (hf : router.registry.frozen = false) (e : Entry) :
    ∃ channels, router.registerChannel e.info.channelId e.info e.persistToDisk =
        { router with registry := { router.registry with channels } } ∧
      channels = if e.persistToDisk then Function.update router.registry.channels
        e.info.channelId (some (StorageRouter.entry e.info)) else router.registry.channels := by
  unfold StorageRouter.registerChannel StorageChannelRegistry.register
  refine ⟨_, ?_, rfl⟩
  cases he : e.persistToDisk with
  | true => simp [hp, hf]
  | false => simp

/-- The channel keeps its entry when the persisted symbols that follow agree with it. -/
theorem registerAll_keeps (hp : router.persistToDisk = true)
    (hf : router.registry.frozen = false) (hfind : router.registry.find i = some entry)
    (hagree : ∀ e ∈ entries, e.persistToDisk = true → e.info.channelId = i →
      StorageRouter.entry e.info = entry) :
    (registerAll entries router).registry.find i = some entry := by
  induction entries generalizing router with
  | nil => exact hfind
  | cons e entries ih =>
    obtain ⟨channels, hreg, hch⟩ := registerChannel_open hp hf e
    rw [registerAll_cons, hreg]
    refine ih (by exact hp) (by exact hf) ?_ fun b hb => hagree b (List.mem_cons_of_mem e hb)
    change channels i = some entry
    rw [hch]
    split
    · next he =>
      rw [Function.update_apply]
      split
      · next hi => rw [hagree e List.mem_cons_self he hi.symm]
      · exact hfind
    · exact hfind

/-- When the persisted symbols of each channel agree, all of them find their entry. -/
theorem registerAll_find (hp : router.persistToDisk = true)
    (hf : router.registry.frozen = false)
    (hagree : ∀ a ∈ entries, ∀ b ∈ entries, a.persistToDisk = true → b.persistToDisk = true →
      a.info.channelId = b.info.channelId →
      StorageRouter.entry a.info = StorageRouter.entry b.info)
    {e : Entry} (he : e ∈ entries) (hpe : e.persistToDisk = true) :
    (registerAll entries router).registry.find e.info.channelId =
      some (StorageRouter.entry e.info) := by
  induction entries generalizing router with
  | nil => cases he
  | cons a entries ih =>
    obtain ⟨channels, hreg, hch⟩ := registerChannel_open hp hf a
    rw [registerAll_cons, hreg]
    rcases List.mem_cons.mp he with rfl | he
    · apply registerAll_keeps (by exact hp) (by exact hf)
      · change channels e.info.channelId = _
        rw [hch, if_pos hpe, Function.update_self]
      · intro b hb hpb hid
        exact hagree b (List.mem_cons_of_mem e hb) e List.mem_cons_self hpb hpe hid
    · exact ih (by exact hp) (by exact hf) (fun b hb c hc => hagree b (List.mem_cons_of_mem a hb) c
        (List.mem_cons_of_mem a hc)) he

/-- Nothing else gets into the registry. -/
theorem registerAll_source (hp : router.persistToDisk = true)
    (hf : router.registry.frozen = false)
    (h : (registerAll entries router).registry.find i = some entry) :
    router.registry.find i = some entry ∨ ∃ e ∈ entries, entry = StorageRouter.entry e.info := by
  induction entries generalizing router with
  | nil => exact .inl h
  | cons e entries ih =>
    obtain ⟨channels, hreg, hch⟩ := registerChannel_open hp hf e
    rw [registerAll_cons, hreg] at h
    rcases ih (by exact hp) (by exact hf) h with hi | ⟨a, ha, hentry⟩
    · change channels i = some entry at hi
      rw [hch] at hi
      split at hi
      · rw [Function.update_apply] at hi
        split at hi
        · cases hi; exact .inr ⟨e, List.mem_cons_self, rfl⟩
        · exact .inl hi
      · exact .inl hi
    · exact .inr ⟨a, List.mem_cons_of_mem e ha, hentry⟩

end Storage

theorem Resolved.of_found {reg : StorageChannelRegistry} {info : ChannelInfo}
    (h : reg.find info.channelId = some (StorageRouter.entry info)) : Resolved reg info where
  found := h
  trades t ht := by
    rw [← ht] at h
    exact channelColumns_of_find h t.symbol
  orderbook event localTs he := by
    rw [← he] at h
    refine ⟨channelColumns_of_find h event.symbol, ?_⟩
    rw [orderbookRow, levelArray, List.length_map, List.length_range, orderbookLevels, h]
    rfl
  bookTicker event he := by
    rw [← he] at h
    exact channelColumns_of_find h event.symbol

/-- Adapters are for spot and perpetual channels. -/
theorem type_ne_futures {e : Entry} (h : e ∈ cryptoEntries cfg) : e.info.type ≠ .futures := by
  obtain ⟨ex, -, h⟩ := List.mem_flatMap.mp h
  obtain ⟨ch, -, h⟩ := List.mem_flatMap.mp h
  split at h
  · cases h
  · next adapter _ =>
    obtain ⟨sym, -, rfl⟩ := List.mem_map.mp h
    change adapter.channelType ≠ .futures
    cases adapter <;> exact nofun

theorem channelTypeName_injective {a b : ChannelType} (h : channelTypeName a = channelTypeName b) :
    a = b := by
  have := congrArg parseChannelType h
  rw [parseChannelType_channelTypeName, parseChannelType_channelTypeName] at this
  exact Except.ok.inj this

theorem mem_rithmicEntries {e : Entry} :
    e ∈ rithmicEntries cfg ↔ ∃ ex ∈ cfg.exchanges, ex.enabled = true ∧ ∃ ch ∈ ex.channels,
      ch.type = "futures" ∧ ∃ sym ∈ ch.symbols, sym.enabled = true ∧
        ⟨symbolInfo ex.name .futures sym, sym.persistToDisk⟩ = e := by
  simp only [rithmicEntries, List.mem_flatMap, List.mem_filter, List.mem_map, beq_iff_eq, and_assoc]

/-- With known channel types and without collisions start-up succeeds, and what it leaves in the
storage is decided by the crypto pipeline. -/
theorem startup_eq (hcores : cfg.parserCores ≠ []) (htypes : KnownTypes cfg)
    (hcol : NoCollision cfg) :
    ∃ w, startup cfg = some w ∧ w.storage =
      (registerAll (cryptoEntries cfg) { persistToDisk := cfg.persistToDisk }).freezeChannels := by
  have hcrypto : ∀ a ∈ [] ++ cryptoEntries cfg, ∀ b ∈ [] ++ cryptoEntries cfg,
      a.info.channelId = b.info.channelId → a.info.SameChannel b.info := fun a ha b hb =>
    hcol a (List.mem_append_left _ ha) b (List.mem_append_left _ hb)
  let w₀ : World := { storage := { persistToDisk := cfg.persistToDisk } }
  have hw₀ : Known [] w₀.channels := nofun
  obtain ⟨channels, hrun, hknown⟩ := forM_registerEntry hcrypto hw₀
  let w₁ : World := ⟨channels,
    (registerAll (cryptoEntries cfg) { persistToDisk := cfg.persistToDisk }).freezeChannels⟩
  have hw₁ : Known (cryptoEntries cfg) w₁.channels := hknown
  obtain ⟨channels', hrun', -⟩ := forM_registerEntry hcol hw₁
  refine ⟨⟨channels', w₁.storage⟩, ?_, rfl⟩
  have hbuild : buildCryptoSubsystem cfg w₀ = some ⟨channels,
      registerAll (cryptoEntries cfg) { persistToDisk := cfg.persistToDisk }⟩ := by
    rw [buildCryptoSubsystem, buildCryptoChannels_eq htypes, hrun,
      if_neg (by rwa [List.isEmpty_iff])]
  have hfut : registerChannels cfg w₁ = ⟨channels', w₁.storage⟩ := by
    rw [registerChannels, registerFutures_eq, hrun', registerAll_frozen rfl]
  change (buildCryptoSubsystem cfg w₀).bind (fun w => some (registerChannels cfg
    { w with storage := w.storage.freezeChannels })) = _
  rw [hbuild, Option.bind_some]
  exact congrArg some hfut

/-- The crypto pipeline registers no futures. -/
theorem found_ne_futures {i : UInt32} {info : ChannelInfo} (hpersist : cfg.persistToDisk = true)
    (h : (registerAll (cryptoEntries cfg) { persistToDisk := cfg.persistToDisk }).registry.find i =
      some (StorageRouter.entry info)) : info.type ≠ .futures := by
  rcases registerAll_source hpersist rfl h with hnone | ⟨e, he, hentry⟩
  · cases hnone
  · intro htype
    have hname := congrArg ChannelMeta.marketType hentry
    exact type_ne_futures he ((channelTypeName_injective hname).symm.trans htype)

/-- What the crypto pipeline registers for a persisted symbol is not overwritten. -/
theorem find_cryptoEntry (hpersist : cfg.persistToDisk = true) (hcol : NoCollision cfg)
    (hdepth : DepthsAgree cfg) {e : Entry} (he : e ∈ cryptoEntries cfg)
    (hp : e.persistToDisk = true) :
    (registerAll (cryptoEntries cfg) { persistToDisk := cfg.persistToDisk }).registry.find
      e.info.channelId = some (StorageRouter.entry e.info) := by
  refine registerAll_find hpersist rfl ?_ he hp
  intro a ha b hb hpa hpb hid
  have hsame := hcol a (List.mem_append_left _ ha) b (List.mem_append_left _ hb) hid
  have hd := hdepth a ha b hb hpa hpb hsame
  obtain ⟨hex, hty, hsym⟩ := hsame
  rw [StorageRouter.entry, StorageRouter.entry, hex, hty, hsym, hd]

/-- After start-up the storage knows every persisted channel, with the values of the configuration,
exactly when no persisted symbol is left to the Rithmic pipeline and the symbols that stand for one
channel ask for the same depth. -/
theorem persistedResolvable_iff (hcores : cfg.parserCores ≠ [])
    (hpersist : cfg.persistToDisk = true) (htypes : KnownTypes cfg) (hcol : NoCollision cfg) :
    ∃ w, startup cfg = some w ∧
      (PersistedResolvable cfg w ↔ NoPersistedFutures cfg ∧ DepthsAgree cfg) := by
  obtain ⟨w, hw, hstorage⟩ := startup_eq hcores htypes hcol
  refine ⟨w, hw, ?_⟩
  unfold PersistedResolvable
  have hreg : w.storage.registry.find =
      (registerAll (cryptoEntries cfg) { persistToDisk := cfg.persistToDisk }).registry.find := by
    rw [hstorage]; rfl
  constructor
  · intro h
    constructor
    · intro ex hex hen ch hch htype sym hsym hsen
      by_contra hp
      have hp : sym.persistToDisk = true := Bool.not_eq_false _ |>.mp hp
      have hmem : (⟨symbolInfo ex.name .futures sym, sym.persistToDisk⟩ : Entry) ∈
          rithmicEntries cfg :=
        mem_rithmicEntries.mpr ⟨ex, hex, hen, ch, hch, htype, sym, hsym, hsen, rfl⟩
      have hfound := (h _ (List.mem_append_right _ hmem) hp).found
      rw [hreg] at hfound
      exact found_ne_futures hpersist hfound rfl
    · intro a ha b hb hpa hpb hsame
      have hfa := (h a (List.mem_append_left _ ha) hpa).found
      have hfb := (h b (List.mem_append_left _ hb) hpb).found
      rw [hsame.channelId_eq, hfb] at hfa
      exact congrArg ChannelMeta.depthLevel (Option.some.inj hfa).symm
  · rintro ⟨hfut, hdepth⟩ e he hp
    rcases List.mem_append.mp he with he | he
    · apply Resolved.of_found
      rw [hreg]
      exact find_cryptoEntry hpersist hcol hdepth he hp
    · obtain ⟨ex, hex, hen, ch, hch, htype, sym, hsym, hsen, rfl⟩ := mem_rithmicEntries.mp he
      exact absurd hp (by rw [hfut ex hex hen ch hch htype sym hsym hsen]; exact nofun)

/-- Two crypto channels of one symbol, and a futures symbol that is not persisted. -/
def cryptoPersisted : RootConfig where
  exchanges :=
    [{ name := "binance", enabled := true, channels :=
        [{ type := "spot", symbols := [{ name := "BTCUSDT", depthLevel := 20 }] },
         { type := "perpetual", symbols := [{ name := "BTCUSDT" }] }] },
     { name := "COMEX", enabled := true, channels :=
        [{ type := "futures", symbols := [{ name := "GC", persistToDisk := false }] }] }]

theorem cryptoPersisted_resolvable :
    ∃ w, startup cryptoPersisted = some w ∧ PersistedResolvable cryptoPersisted w := by
  have hcol : NoCollision cryptoPersisted := by unfold NoCollision; decide +kernel
  have hcores : cryptoPersisted.parserCores ≠ [] := nofun
  obtain ⟨w, hw, h⟩ := persistedResolvable_iff hcores rfl
    (by unfold KnownTypes; decide +kernel) hcol
  refine ⟨w, hw, h.mpr ⟨?_, ?_⟩⟩
  · unfold NoPersistedFutures; decide +kernel
  · unfold DepthsAgree; decide +kernel

/-- One persisted futures symbol. -/
def goldFutures : RootConfig where
  exchanges :=
    [{ name := "COMEX", enabled := true, channels :=
        [{ type := "futures", symbols := [{ name := "GC" }] }] }]

/-- The registration of the Rithmic pipeline comes after `FreezeChannels` and is refused. -/
theorem rithmic_registration_refused :
    KnownTypes goldFutures ∧ NoCollision goldFutures ∧
    ∃ w, startup goldFutures = some w ∧ ¬ PersistedResolvable goldFutures w := by
  have htypes : KnownTypes goldFutures := by unfold KnownTypes; decide +kernel
  have hcol : NoCollision goldFutures := by unfold NoCollision; decide +kernel
  have hcores : goldFutures.parserCores ≠ [] := nofun
  obtain ⟨w, hw, hstorage⟩ := startup_eq hcores htypes hcol
  refine ⟨htypes, hcol, w, hw, fun h => ?_⟩
  have hmem : (⟨symbolInfo "COMEX" .futures { name := "GC" }, true⟩ : Entry) ∈
      cryptoEntries goldFutures ++ rithmicEntries goldFutures := List.mem_singleton.mpr rfl
  have hfound := (h _ hmem rfl).found
  rw [hstorage] at hfound
  cases hfound

end Startup

end Sqc
