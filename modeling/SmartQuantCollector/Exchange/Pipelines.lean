import SmartQuantCollector.Startup

/-! # The two pipelines (`src/exchange/crypto/crypto_factory.cpp`,
`src/exchange/rithmic/rithmic_process_manager.cpp`)

Start-up once more, now with what each pipeline keeps for itself: the `SymbolChannel`s of
`BuildCryptoChannels` and the `RithmicChannelMap` of `RegisterChannels`. Every registration is
recorded together with the configuration entry it was made for. On the two registries the programs
below are those of `Startup` (`startup_eq_launched`).

`collectedOnce_iff` says for which configurations no entry is taken up by both pipelines and every
channel has the type of its entry. -/

namespace Sqc
open Fallible FallibleLoop

/-- What a `SymbolChannel` knows about its channel. -/
structure SymbolChannel where
  adapter : ExchangeAdapter
  symbol : String
  depthLevel : UInt32
  channelId : UInt32
deriving DecidableEq

/-! ## `RithmicChannelMap` (`src/exchange/rithmic/rithmic_types.h`) -/

structure SubEntry where
  enabled : Bool := false
  exchange : String
  ticker : String
  channelId : UInt32
deriving DecidableEq

structure RithmicChannelMap where
  registeredIds : UInt32 → Bool := fun _ => false
  subList : List SubEntry := []

namespace RithmicChannelMap

/-- `UINT32_MAX` -/
def kNotFound : UInt32 := 4294967295

def register (map : RithmicChannelMap) (exchange ticker : String) (channelId : UInt32)
    (enabled : Bool := true) : RithmicChannelMap where
  registeredIds := Function.update map.registeredIds channelId true
  subList := map.subList ++ [⟨enabled, exchange, ticker, channelId⟩]

def lookup (map : RithmicChannelMap) (exchange ticker : String) : UInt32 :=
  let id := computeChannelId exchange "futures" ticker
  if map.registeredIds id then id else kNotFound

end RithmicChannelMap

/-! ## Start-up -/

inductive Pipeline where
  | crypto
  | rithmic
deriving DecidableEq

/-- An entry of the configuration: an enabled symbol under a channel of an enabled exchange. -/
structure ConfigEntry where
  exchange : String
  type : String
  symbol : String
deriving DecidableEq

/-- A call of `ChannelRegistry::Register` that returned. -/
structure Registration where
  pipeline : Pipeline
  entry : ConfigEntry
  info : ChannelInfo

structure Pipelines where
  world : World
  symbolChannels : List SymbolChannel := []
  channelMap : RithmicChannelMap := {}
  log : List Registration := []

abbrev PipelineM := Prog String Pipelines

namespace Pipelines
open Startup

/-- The two calls that both pipelines make for a symbol. -/
def registerSymbol (r : Registration) (persistToDisk : Bool) : PipelineM UInt32 := do
  let p ← get
  let (channels, id) ← p.world.channels.register r.info
  let storage := p.world.storage.registerChannel id r.info persistToDisk
  set { p with world := { channels, storage }, log := p.log ++ [r] }
  return id

/-- The body of the innermost loop of `BuildCryptoChannels`. -/
def addSymbolChannel (ex : ExchangeConfig) (ch : ChannelConfig) (adapter : ExchangeAdapter)
    (sym : SymbolConfig) : PipelineM Unit := do
  let id ← registerSymbol ⟨.crypto, ⟨ex.name, ch.type, sym.name⟩,
    symbolInfo ex.name adapter.channelType sym⟩ sym.persistToDisk
  modify fun p => { p with
    symbolChannels := p.symbolChannels ++ [⟨adapter, sym.name, sym.depthLevel, id⟩] }

/-- The channel `ch` of an exchange that `BuildCryptoChannels` does not skip. -/
def addChannel (ex : ExchangeConfig) (ch : ChannelConfig) : PipelineM Unit := do
  let type ← parseChannelType ch.type
  match getAdapter ex.name type with
  | none => pure ()
  | some adapter =>
    forM ch.symbols fun sym => do
      if sym.enabled then
        addSymbolChannel ex ch adapter sym

def buildCryptoChannels (cfg : RootConfig) : PipelineM Unit :=
  forM cfg.exchanges fun ex => do
    if ex.enabled then
      forM ex.channels (addChannel ex)

/-- The body of the innermost loop of `RegisterChannels`. -/
def addSubscription (ex : ExchangeConfig) (ch : ChannelConfig) (sym : SymbolConfig) :
    PipelineM Unit := do
  let id ← registerSymbol ⟨.rithmic, ⟨ex.name, ch.type, sym.name⟩,
    symbolInfo ex.name .futures sym⟩ sym.persistToDisk
  modify fun p => { p with channelMap := p.channelMap.register ex.name sym.name id sym.enabled }

def registerFutures (cfg : RootConfig) : PipelineM Unit :=
  forM cfg.exchanges fun ex => do
    if ex.enabled && ex.channels.any (·.type == "futures") then
      forM ex.channels fun ch => do
        if ch.type == "futures" then
          forM ch.symbols fun sym => do
            if sym.enabled then
              addSubscription ex ch sym

/-- `RegisterChannels`, with a new channel map; exceptions are caught. -/
def registerChannels (cfg : RootConfig) : PipelineM Unit := do
  modify fun p => { p with channelMap := {} }
  tryCatch (registerFutures cfg) fun _ => pure ()

def freezeChannels (p : Pipelines) : Pipelines :=
  { p with world := { p.world with storage := p.world.storage.freezeChannels } }

/-- `main` up to `CreateRithmicManager`, which registers first. It throws where `main` gives up. -/
def launch (cfg : RootConfig) : PipelineM Unit := do
  if cfg.parserCores.isEmpty then
    throw "parser_cores must not be empty — modulo-by-zero on shard dispatch"
  buildCryptoChannels cfg
  modify freezeChannels
  registerChannels cfg

def initial (cfg : RootConfig) : Pipelines where
  world := { storage := { persistToDisk := cfg.persistToDisk } }

def launched (cfg : RootConfig) : Except String Unit × Pipelines :=
  runFrom (launch cfg) (initial cfg)

/-! ## What a registration does -/

variable {cfg : RootConfig} {p : Pipelines} {r : Registration} {persist : Bool}
  {channels : ChannelRegistry}

/-- The registry has an entry for the channel. -/
def Knows (channels : ChannelRegistry) (info : ChannelInfo) : Prop :=
  ∃ old, channels info.channelId = some old ∧ old.SameChannel info

/-- The id belongs to another channel. -/
def Collides (channels : ChannelRegistry) (info : ChannelInfo) : Prop :=
  ∃ old, channels info.channelId = some old ∧ ¬ old.SameChannel info

/-- The state after a registration that leaves `channels` in the registry. -/
def registered (p : Pipelines) (r : Registration) (persistToDisk : Bool)
    (channels : ChannelRegistry) : Pipelines :=
  { p with
    world := ⟨channels, p.world.storage.registerChannel r.info.channelId r.info persistToDisk⟩
    log := p.log ++ [r] }

/-- What `Register` may have made of the registry when it returns. -/
inductive Registers (old : ChannelRegistry) (info : ChannelInfo) : ChannelRegistry → Prop where
  | again {entry} (h : old info.channelId = some entry) (hsame : entry.SameChannel info) :
    Registers old info old
  | new (h : old info.channelId = none) : Registers old info (Function.update old info.channelId
      (some { info with id := info.channelId, topicPrefix := info.topic }))

theorem runFrom_registerSymbol (p : Pipelines) (r : Registration) (persist : Bool) :
    runFrom (registerSymbol r persist) p =
      match p.world.channels.register r.info with
      | .ok (channels, id) => (.ok id, { p with
          world := ⟨channels, p.world.storage.registerChannel id r.info persist⟩
          log := p.log ++ [r] })
      | .error e => (.error e, p) := by
  unfold registerSymbol
  rw [runFrom_bind, runFrom_get]
  change runFrom (liftM (p.world.channels.register r.info) >>= _) p = _
  rw [runFrom_bind, runFrom_liftM]
  cases p.world.channels.register r.info with
  | error e => rfl
  | ok res => rfl

theorem registerSymbol_cases (p : Pipelines) (r : Registration) (persist : Bool) :
    (∃ channels, Registers p.world.channels r.info channels ∧
      runFrom (registerSymbol r persist) p =
        (.ok r.info.channelId, p.registered r persist channels)) ∨
    (Collides p.world.channels r.info ∧
      ∃ e, runFrom (registerSymbol r persist) p = (.error e, p)) := by
  rw [runFrom_registerSymbol]
  rcases p.world.channels.register_cases r.info with
    ⟨old, hold, hsame, hreg⟩ | ⟨hnone, hreg⟩ | ⟨old, e, hold, hne, hreg⟩
  · exact .inl ⟨_, .again hold hsame, by rw [hreg]; rfl⟩
  · exact .inl ⟨_, .new hnone, by rw [hreg]; rfl⟩
  · exact .inr ⟨⟨old, hold, hne⟩, e, by rw [hreg]⟩

namespace Registers

variable {old : ChannelRegistry} {info other : ChannelInfo}

theorem knows (h : Registers old info channels) : Knows channels info := by
  cases h with
  | again hold hsame => exact ⟨_, hold, hsame⟩
  | new hnone => exact ⟨_, Function.update_self .., rfl, rfl, rfl⟩

theorem mono {i : UInt32} (h : Registers old info channels) (hi : old i = some other) :
    channels i = some other := by
  cases h with
  | again => exact hi
  | new hnone =>
    have hne : i ≠ info.channelId := fun heq => by rw [heq, hnone] at hi; cases hi
    rwa [Function.update_of_ne hne]

theorem knows_mono (h : Registers old info channels) (hk : Knows old other) :
    Knows channels other :=
  hk.imp fun _ hold => ⟨h.mono hold.1, hold.2⟩

/-- Entries only come from the registration. -/
theorem source {i : UInt32} (h : Registers old info channels) (hi : channels i = some other) :
    old i = some other ∨ i = info.channelId ∧
      other = { info with id := info.channelId, topicPrefix := info.topic } := by
  cases h with
  | again => exact .inl hi
  | new hnone =>
    rw [Function.update_apply] at hi
    split at hi
    · next heq => cases hi; exact .inr ⟨heq, rfl⟩
    · exact .inl hi

end Registers

/-- The body of a loop: a registration, followed by a change that uses the id. -/
theorem keeps_register {P : Pipelines → Prop} {f : UInt32 → Pipelines → Pipelines}
    (h : ∀ p channels, P p → Registers p.world.channels r.info channels →
      P (f r.info.channelId (p.registered r persist channels))) :
    Keeps P (registerSymbol r persist >>= fun id => modify (f id)) := by
  intro p hp
  rw [runFrom_bind]
  rcases registerSymbol_cases p r persist with ⟨channels, hreg, hrun⟩ | ⟨-, e, hrun⟩
  · rw [hrun]
    exact h p channels hp hreg
  · rw [hrun]
    exact hp

theorem establishes_register {Q : Pipelines → Prop} {f : UInt32 → Pipelines → Pipelines}
    (h : ∀ (p : Pipelines) channels, Q (f r.info.channelId (p.registered r persist channels))) :
    Establishes Q (registerSymbol r persist >>= fun id => modify (f id)) := by
  intro p a q hrun
  rw [runFrom_bind] at hrun
  rcases registerSymbol_cases p r persist with ⟨channels, -, hreg⟩ | ⟨-, e, hreg⟩
  · rw [hreg] at hrun
    cases hrun
    exact h p channels
  · rw [hreg] at hrun
    cases hrun

/-! ## Rules for the loops -/

section Loops

variable {P : Pipelines → Prop}

theorem addChannel_of_parse {ex : ExchangeConfig} {ch : ChannelConfig} {type : ChannelType}
    (h : parseChannelType ch.type = .ok type) :
    addChannel ex ch = match getAdapter ex.name type with
      | none => pure ()
      | some adapter => forM ch.symbols fun sym =>
        if sym.enabled = true then addSymbolChannel ex ch adapter sym else pure () := by
  unfold addChannel
  rw [h]
  rfl

theorem keeps_addChannel {ex : ExchangeConfig} {ch : ChannelConfig}
    (h : ∀ type adapter, parseChannelType ch.type = .ok type →
      getAdapter ex.name type = some adapter → ∀ sym ∈ ch.symbols, sym.enabled = true →
        Keeps P (addSymbolChannel ex ch adapter sym)) : Keeps P (addChannel ex ch) := by
  cases hparse : parseChannelType ch.type with
  | error e =>
    unfold addChannel
    rw [hparse]
    exact fun p hp => hp
  | ok type =>
    rw [addChannel_of_parse hparse]
    cases hadapter : getAdapter ex.name type with
    | none => exact Keeps.pure _
    | some adapter =>
      refine Keeps.forM fun sym hsym => ?_
      split
      · next hsen => exact h type adapter hparse hadapter sym hsym hsen
      · exact Keeps.pure _

theorem keeps_buildCryptoChannels
    (h : ∀ ex ∈ cfg.exchanges, ex.enabled = true → ∀ ch ∈ ex.channels, Keeps P (addChannel ex ch)) :
    Keeps P (buildCryptoChannels cfg) := by
  refine Keeps.forM fun ex hex => ?_
  split
  · next hen => exact Keeps.forM (h ex hex hen)
  · exact Keeps.pure _

theorem keeps_registerFutures
    (h : ∀ ex ∈ cfg.exchanges, ex.enabled = true → ∀ ch ∈ ex.channels, ch.type = "futures" →
      ∀ sym ∈ ch.symbols, sym.enabled = true → Keeps P (addSubscription ex ch sym)) :
    Keeps P (registerFutures cfg) := by
  refine Keeps.forM fun ex hex => ?_
  split
  · next hen =>
    refine Keeps.forM fun ch hch => ?_
    split
    · next htype =>
      refine Keeps.forM fun sym hsym => ?_
      split
      · next hsen =>
        exact h ex hex (Bool.and_eq_true_iff.mp hen).1 ch hch (beq_iff_eq.mp htype) sym hsym hsen
      · exact Keeps.pure _
    · exact Keeps.pure _
  · exact Keeps.pure _

/-- The symbols of a channel with an adapter, once `BuildCryptoChannels` has returned. -/
theorem establishes_buildCryptoChannels {ex : ExchangeConfig} {ch : ChannelConfig}
    {sym : SymbolConfig} {type : ChannelType} {adapter : ExchangeAdapter}
    (hex : ex ∈ cfg.exchanges) (hen : ex.enabled = true) (hch : ch ∈ ex.channels)
    (hparse : parseChannelType ch.type = .ok type)
    (hadapter : getAdapter ex.name type = some adapter)
    (hsym : sym ∈ ch.symbols) (hsen : sym.enabled = true)
    (h : Establishes P (addSymbolChannel ex ch adapter sym))
    (hkeep : ∀ ex ch adapter sym, Keeps P (addSymbolChannel ex ch adapter sym)) :
    Establishes P (buildCryptoChannels cfg) := by
  have hkeepCh : ∀ ex ch, Keeps P (addChannel ex ch) := fun ex ch =>
    keeps_addChannel fun _ adapter _ _ sym _ _ => hkeep ex ch adapter sym
  have hestCh : Establishes P (addChannel ex ch) := by
    rw [addChannel_of_parse hparse, hadapter]
    refine Establishes.forM hsym ?_ fun sym _ => ?_
    · rw [if_pos hsen]
      exact h
    · split
      · exact hkeep ex ch adapter sym
      · exact Keeps.pure _
  refine Establishes.forM hex ?_ fun ex _ => ?_
  · rw [if_pos hen]
    exact Establishes.forM hch hestCh fun ch _ => hkeepCh ex ch
  · split
    · exact Keeps.forM fun ch _ => hkeepCh ex ch
    · exact Keeps.pure _

end Loops

/-! ## The registries -/

/-- On the registries a registration is the one of `Startup`. -/
theorem erases_register (r : Registration) (persist : Bool) (f : UInt32 → Pipelines → Pipelines)
    (hf : ∀ id p, (f id p).world = p.world) :
    Erases world (registerSymbol r persist >>= fun id => modify (f id))
      (Startup.registerSymbol r.info persist) := by
  intro p
  have hentry : runFrom (Startup.registerSymbol r.info persist) p.world = _ :=
    registerEntry_run ⟨r.info, persist⟩ p.world
  rw [hentry, runFrom_bind, runFrom_registerSymbol]
  cases p.world.channels.register r.info with
  | error e => rfl
  | ok res => exact Prod.ext rfl (hf res.2 { p with
      world := ⟨res.1, p.world.storage.registerChannel res.2 r.info persist⟩
      log := p.log ++ [r] }).symm

theorem erases_buildCryptoChannels (cfg : RootConfig) :
    Erases world (buildCryptoChannels cfg) (Startup.buildCryptoChannels cfg) := by
  refine Erases.forM fun ex _ => ?_
  split
  · refine Erases.forM fun ch _ => ?_
    refine Erases.bind (Erases.liftM _) fun type => ?_
    cases getAdapter ex.name type with
    | none => exact Erases.pure _
    | some adapter =>
      refine Erases.forM fun sym _ => ?_
      split
      · exact erases_register _ _ _ fun _ _ => rfl
      · exact Erases.pure _
  · exact Erases.pure _

theorem erases_registerFutures (cfg : RootConfig) :
    Erases world (registerFutures cfg) (Startup.registerFutures cfg) := by
  refine Erases.forM fun ex _ => ?_
  split
  · refine Erases.forM fun ch _ => ?_
    split
    · refine Erases.forM fun sym _ => ?_
      split
      · exact erases_register _ _ _ fun _ _ => rfl
      · exact Erases.pure _
    · exact Erases.pure _
  · exact Erases.pure _

/-- `RegisterChannels` always returns. -/
theorem runFrom_registerChannels (cfg : RootConfig) (p : Pipelines) :
    runFrom (registerChannels cfg) p =
      (.ok (), (runFrom (registerFutures cfg) { p with channelMap := {} }).2) := by
  unfold registerChannels
  rw [runFrom_bind, runFrom_modify]
  change runFrom (tryCatch _ _) _ = _
  rw [runFrom_tryCatch]
  cases h : runFrom (registerFutures cfg) { p with channelMap := {} } with
  | mk res q => cases res <;> rfl

theorem launched_eq (hcores : cfg.parserCores ≠ []) :
    launched cfg =
      match runFrom (buildCryptoChannels cfg) (initial cfg) with
      | (.ok _, p) => (.ok (),
          (runFrom (registerFutures cfg) { p.freezeChannels with channelMap := {} }).2)
      | (.error e, p) => (.error e, p) := by
  unfold launched launch
  rw [if_neg (by rwa [List.isEmpty_iff])]
  change runFrom (buildCryptoChannels cfg >>= fun _ => _) _ = _
  rw [runFrom_bind]
  cases h : runFrom (buildCryptoChannels cfg) (initial cfg) with
  | mk res p =>
    cases res with
    | error e => rfl
    | ok _ =>
      change runFrom (modify freezeChannels >>= fun _ => registerChannels cfg) p = _
      rw [runFrom_bind, runFrom_modify]
      exact runFrom_registerChannels cfg p.freezeChannels

theorem launched_of_isEmpty (hcores : cfg.parserCores = []) :
    launched cfg = (.error "parser_cores must not be empty — modulo-by-zero on shard dispatch",
      initial cfg) := by
  unfold launched launch
  rw [hcores]
  rfl

/-- On the registries, start-up is the one of `Startup`. -/
theorem startup_eq_launched (cfg : RootConfig) :
    startup cfg = (launched cfg).1.toOption.map fun _ => (launched cfg).2.world := by
  by_cases hcores : cfg.parserCores = []
  · rw [launched_of_isEmpty hcores]
    unfold startup buildCryptoSubsystem
    rw [hcores]
    rfl
  · have hcrypto : (Startup.buildCryptoChannels cfg).run.run (initial cfg).world = _ :=
      erases_buildCryptoChannels cfg (initial cfg)
    have hbuild : buildCryptoSubsystem cfg (initial cfg).world = _ :=
      if_neg (by rwa [List.isEmpty_iff])
    change (buildCryptoSubsystem cfg (initial cfg).world).bind (fun w => some
      (Startup.registerChannels cfg { w with storage := w.storage.freezeChannels })) = _
    rw [launched_eq hcores, hbuild, hcrypto]
    cases h : runFrom (buildCryptoChannels cfg) (initial cfg) with
    | mk res p =>
      cases res with
      | error e => rfl
      | ok _ =>
        have hfut : runFrom (Startup.registerFutures cfg) p.freezeChannels.world = _ :=
          erases_registerFutures cfg { p.freezeChannels with channelMap := {} }
        exact congrArg (fun res => some res.2) hfut

/-! ## What the registries and the pipelines know -/

/-- The channel that a `SymbolChannel` stands for. -/
def channelOf (c : SymbolChannel) : ChannelInfo where
  exchange := c.adapter.name
  type := c.adapter.channelType
  symbol := c.symbol

/-- The registries hold what the log says, under the ids and topics of the channels, and the
`SymbolChannel`s carry the ids that were registered for them. -/
structure Consistent (p : Pipelines) : Prop where
  registry : ∀ i info, p.world.channels i = some info →
    info.channelId = i ∧ info.id = i ∧ info.topicPrefix = info.topic
  log : ∀ r ∈ p.log, Knows p.world.channels r.info
  storage : ∀ i m, p.world.storage.registry.find i = some m →
    ∃ r ∈ p.log, r.info.channelId = i ∧ StorageRouter.entry r.info = m
  symbolChannels : ∀ c ∈ p.symbolChannels, c.channelId = (channelOf c).channelId ∧
    Knows p.world.channels (channelOf c)

theorem Knows.of_sameChannel {a b : ChannelInfo} (h : a.SameChannel b) (ha : Knows channels a) :
    Knows channels b := by
  obtain ⟨old, hold, hsame⟩ := ha
  refine ⟨old, h.channelId_eq ▸ hold, ?_⟩
  exact ⟨hsame.1.trans h.1, hsame.2.1.trans h.2.1, hsame.2.2.trans h.2.2⟩

theorem find_registerChannel {router : StorageRouter} {id i : UInt32} {info : ChannelInfo}
    {m : ChannelMeta} (h : (router.registerChannel id info persist).registry.find i = some m) :
    router.registry.find i = some m ∨ id = i ∧ StorageRouter.entry info = m := by
  unfold StorageRouter.registerChannel StorageChannelRegistry.register at h
  split at h
  · exact .inl h
  · split at h
    · exact .inl h
    · change Function.update router.registry.channels id _ i = some m at h
      rw [Function.update_apply] at h
      split at h
      · next heq => exact .inr ⟨heq.symm, Option.some.inj h⟩
      · exact .inl h

namespace Consistent

theorem initial (cfg : RootConfig) : Consistent (Pipelines.initial cfg) where
  registry := nofun
  log := nofun
  storage := nofun
  symbolChannels := nofun

theorem registered (h : Consistent p) (hreg : Registers p.world.channels r.info channels) :
    Consistent (p.registered r persist channels) where
  registry i info hi := by
    rcases hreg.source hi with hi | ⟨rfl, rfl⟩
    · exact h.registry i info hi
    · exact ⟨rfl, rfl, rfl⟩
  log a ha := by
    rcases List.mem_append.mp ha with ha | ha
    · exact hreg.knows_mono (h.log a ha)
    · obtain rfl := List.mem_singleton.mp ha
      exact hreg.knows
  storage i m hm := by
    rcases find_registerChannel hm with hm | ⟨hid, hentry⟩
    · obtain ⟨a, ha, hi⟩ := h.storage i m hm
      exact ⟨a, List.mem_append_left _ ha, hi⟩
    · exact ⟨r, List.mem_append_right _ List.mem_cons_self, hid, hentry⟩
  symbolChannels c hc := by
    obtain ⟨hid, hk⟩ := h.symbolChannels c hc
    exact ⟨hid, hreg.knows_mono hk⟩

theorem addSubscription (ex : ExchangeConfig) (ch : ChannelConfig) (sym : SymbolConfig) :
    Keeps Consistent (Pipelines.addSubscription ex ch sym) :=
  keeps_register fun _ _ hp hreg => ⟨(hp.registered hreg).registry, (hp.registered hreg).log,
    (hp.registered hreg).storage, (hp.registered hreg).symbolChannels⟩

theorem addSymbolChannel {ex : ExchangeConfig} (ch : ChannelConfig) {adapter : ExchangeAdapter}
    (hname : ex.name = adapter.name) (sym : SymbolConfig) :
    Keeps Consistent (Pipelines.addSymbolChannel ex ch adapter sym) := by
  refine keeps_register fun p channels hp hreg => ?_
  have h : Consistent (p.registered _ sym.persistToDisk channels) := hp.registered hreg
  refine ⟨h.registry, h.log, h.storage, fun c hc => ?_⟩
  rcases List.mem_append.mp hc with hc | hc
  · exact h.symbolChannels c hc
  · obtain rfl := List.mem_singleton.mp hc
    have hsame : (symbolInfo ex.name adapter.channelType sym).SameChannel
        (channelOf ⟨adapter, sym.name, sym.depthLevel,
          (symbolInfo ex.name adapter.channelType sym).channelId⟩) := ⟨hname, rfl, rfl⟩
    exact ⟨hsame.channelId_eq, hreg.knows.of_sameChannel hsame⟩

end Consistent

theorem getAdapter_name {name : String} {type : ChannelType} {adapter : ExchangeAdapter}
    (h : getAdapter name type = some adapter) : name = adapter.name := by
  unfold getAdapter at h
  split at h
  · next hname =>
    cases h
    rw [hname]
    split <;> rfl
  · split at h
    · next hname =>
      cases h
      rw [hname]
      split <;> rfl
    · cases h

/-- Where a registration of the log comes from. -/
def FromConfig (cfg : RootConfig) (r : Registration) : Prop :=
  ∃ ex ∈ cfg.exchanges, ex.enabled = true ∧ ∃ ch ∈ ex.channels, ∃ sym ∈ ch.symbols,
    sym.enabled = true ∧ r.entry = ⟨ex.name, ch.type, sym.name⟩ ∧
    match r.pipeline with
    | .crypto => ∃ type adapter, parseChannelType ch.type = .ok type ∧
        getAdapter ex.name type = some adapter ∧
        r.info = symbolInfo ex.name adapter.channelType sym
    | .rithmic => ch.type = "futures" ∧ r.info = symbolInfo ex.name .futures sym

/-- Start-up keeps what its two loops and `FreezeChannels` keep. -/
theorem launched_induction {P : Pipelines → Prop} (hinit : P (initial cfg))
    (hcrypto : Keeps P (buildCryptoChannels cfg))
    (hfreeze : ∀ p, P p → P { p.freezeChannels with channelMap := {} })
    (hfutures : Keeps P (registerFutures cfg)) : P (launched cfg).2 := by
  by_cases hcores : cfg.parserCores = []
  · rw [launched_of_isEmpty hcores]
    exact hinit
  · have hp := hcrypto (initial cfg) hinit
    rw [launched_eq hcores]
    cases h : runFrom (buildCryptoChannels cfg) (initial cfg) with
    | mk res p =>
      rw [h] at hp
      cases res with
      | error e => exact hp
      | ok _ => exact hfutures _ (hfreeze p hp)

theorem launched_consistent (cfg : RootConfig) : Consistent (launched cfg).2 := by
  refine launched_induction (Consistent.initial cfg) ?_ ?_ ?_
  · exact keeps_buildCryptoChannels fun ex _ _ ch _ => keeps_addChannel
      fun _ _ _ hadapter sym _ _ => Consistent.addSymbolChannel ch (getAdapter_name hadapter) sym
  · exact fun p hp => ⟨hp.registry, hp.log, hp.storage, hp.symbolChannels⟩
  · exact keeps_registerFutures fun ex _ _ ch _ _ sym _ _ => Consistent.addSubscription ex ch sym

theorem launched_fromConfig (cfg : RootConfig) : ∀ r ∈ (launched cfg).2.log, FromConfig cfg r := by
  refine launched_induction (P := fun p => ∀ r ∈ p.log, FromConfig cfg r) nofun ?_ ?_ ?_
  · refine keeps_buildCryptoChannels fun ex hex hen ch hch => ?_
    refine keeps_addChannel fun type adapter hparse hadapter sym hsym hsen => ?_
    exact keeps_register fun p channels hp _ => List.forall_mem_append.mpr ⟨hp,
      List.forall_mem_singleton.mpr
        ⟨ex, hex, hen, ch, hch, sym, hsym, hsen, rfl, type, adapter, hparse, hadapter, rfl⟩⟩
  · exact fun p hp => hp
  · refine keeps_registerFutures fun ex hex hen ch hch htype sym hsym hsen => ?_
    exact keeps_register fun p channels hp _ => List.forall_mem_append.mpr ⟨hp,
      List.forall_mem_singleton.mpr
        ⟨ex, hex, hen, ch, hch, sym, hsym, hsen, rfl, htype, rfl⟩⟩

/-! ## Entries and pipelines -/

/-- No entry is taken up by both pipelines, and what is registered for an entry, in either registry,
has the entry's type, with the id and topic that go with it. -/
structure CollectedOnce (p : Pipelines) : Prop where
  once : ∀ a ∈ p.log, ∀ b ∈ p.log, a.entry = b.entry → a.pipeline = b.pipeline
  info : ∀ r ∈ p.log, r.info.exchange = r.entry.exchange ∧
    channelTypeName r.info.type = r.entry.type ∧ r.info.symbol = r.entry.symbol
  registry : ∀ r ∈ p.log, ∃ info, p.world.channels r.info.channelId = some info ∧
    channelTypeName info.type = r.entry.type ∧
    info.id = computeChannelId r.entry.exchange r.entry.type r.entry.symbol ∧
    info.topicPrefix = r.entry.exchange ++ ":" ++ r.entry.type ++ ":" ++ r.entry.symbol
  storage : ∀ r ∈ p.log, ∀ m, p.world.storage.registry.find r.info.channelId = some m →
    m.exchange = r.entry.exchange ∧ m.marketType = r.entry.type ∧ m.symbol = r.entry.symbol

/-- An exchange with adapters has no enabled symbol under a channel of type futures. -/
def NoAdapterFutures (cfg : RootConfig) : Prop :=
  ∀ ex ∈ cfg.exchanges, ex.enabled = true → getAdapter ex.name .futures ≠ none →
    ∀ ch ∈ ex.channels, ch.type = "futures" → ∀ sym ∈ ch.symbols, sym.enabled = false

theorem channelTypeName_of_parse {s : String} {type : ChannelType}
    (h : parseChannelType s = .ok type) : channelTypeName type = s := by
  unfold parseChannelType at h
  split at h
  · next hs => cases h; exact hs.symm
  · split at h
    · next hs => cases h; exact hs.symm
    · split at h
      · next hs => cases h; exact hs.symm
      · cases h

theorem getAdapter_channelType {name : String} {type : ChannelType} {adapter : ExchangeAdapter}
    (h : getAdapter name type = some adapter) (hne : type ≠ .futures) :
    adapter.channelType = type := by
  unfold getAdapter at h
  split at h
  · cases h
    cases type <;> trivial
  · split at h
    · cases h
      cases type <;> trivial
    · cases h

/-- Whether an exchange has an adapter does not depend on the type. -/
theorem getAdapter_futures_ne_none {name : String} {type : ChannelType} {adapter : ExchangeAdapter}
    (h : getAdapter name type = some adapter) : getAdapter name .futures ≠ none := by
  unfold getAdapter at h ⊢
  split
  · exact nofun
  · split
    · exact nofun
    · next h₁ h₂ =>
      rw [if_neg h₁, if_neg h₂] at h
      cases h

theorem FromConfig.info (hcfg : NoAdapterFutures cfg) (h : FromConfig cfg r) :
    r.info.exchange = r.entry.exchange ∧ channelTypeName r.info.type = r.entry.type ∧
      r.info.symbol = r.entry.symbol := by
  obtain ⟨ex, hex, hen, ch, hch, sym, hsym, hsen, hentry, hpipe⟩ := h
  rw [hentry]
  split at hpipe
  · obtain ⟨type, adapter, hparse, hadapter, hinfo⟩ := hpipe
    have htype := channelTypeName_of_parse hparse
    have hne : type ≠ .futures := by
      rintro rfl
      have := hcfg ex hex hen (getAdapter_futures_ne_none hadapter) ch hch htype.symm sym hsym
      rw [hsen] at this
      cases this
    rw [hinfo, ← htype, ← getAdapter_channelType hadapter hne]
    exact ⟨rfl, rfl, rfl⟩
  · obtain ⟨htype, hinfo⟩ := hpipe
    rw [hinfo, htype]
    exact ⟨rfl, rfl, rfl⟩

theorem FromConfig.pipeline (hcfg : NoAdapterFutures cfg) (h : FromConfig cfg r) :
    r.pipeline = if r.entry.type = "futures" then .rithmic else .crypto := by
  have htype := (h.info hcfg).2.1
  obtain ⟨ex, hex, hen, ch, hch, sym, hsym, hsen, hentry, hpipe⟩ := h
  split at hpipe
  · next hp =>
    obtain ⟨type, adapter, hparse, hadapter, hinfo⟩ := hpipe
    rw [hp, if_neg]
    rw [← htype, hinfo]
    change channelTypeName adapter.channelType ≠ channelTypeName .futures
    cases adapter <;> decide
  · next hp =>
    rw [hp, if_pos]
    rw [hentry]
    exact hpipe.1

theorem Knows.sameChannel {a b : ChannelInfo} (ha : Knows channels a) (hb : Knows channels b)
    (hid : a.channelId = b.channelId) : a.SameChannel b := by
  obtain ⟨old, hold, hsame⟩ := ha
  obtain ⟨old', hold', hsame'⟩ := hb
  rw [hid, hold'] at hold
  cases hold
  exact ⟨hsame.1.symm.trans hsame'.1, hsame.2.1.symm.trans hsame'.2.1,
    hsame.2.2.symm.trans hsame'.2.2⟩

theorem collectedOnce_of_noAdapterFutures (hcfg : NoAdapterFutures cfg) :
    CollectedOnce (launched cfg).2 := by
  have hcons := launched_consistent cfg
  have hfrom := launched_fromConfig cfg
  refine ⟨fun a ha b hb hentry => ?_, fun r hr => (hfrom r hr).info hcfg, fun r hr => ?_,
    fun r hr m hm => ?_⟩
  · rw [(hfrom a ha).pipeline hcfg, (hfrom b hb).pipeline hcfg, hentry]
  · obtain ⟨hex, hty, hsy⟩ := (hfrom r hr).info hcfg
    obtain ⟨info, hinfo, hsame⟩ := hcons.log r hr
    obtain ⟨-, hid, htopic⟩ := hcons.registry _ info hinfo
    refine ⟨info, hinfo, ?_, ?_, ?_⟩
    · rw [hsame.2.1, hty]
    · rw [hid, ChannelInfo.channelId, hex, hty, hsy]
    · rw [htopic, ChannelInfo.topic, hsame.1, hsame.2.1, hsame.2.2, hex, hty, hsy]
  · obtain ⟨hex, hty, hsy⟩ := (hfrom r hr).info hcfg
    obtain ⟨a, ha, hid, rfl⟩ := hcons.storage _ m hm
    obtain ⟨hex', hty', hsy'⟩ := (hcons.log a ha).sameChannel (hcons.log r hr) hid
    exact ⟨hex'.trans hex, (congrArg channelTypeName hty').trans hty, hsy'.trans hsy⟩

/-- The crypto pipeline takes up every enabled symbol of an exchange with adapters. -/
theorem mem_log_of_adapter {ex : ExchangeConfig} {ch : ChannelConfig} {sym : SymbolConfig}
    {type : ChannelType} {adapter : ExchangeAdapter} (hex : ex ∈ cfg.exchanges)
    (hen : ex.enabled = true) (hch : ch ∈ ex.channels)
    (hparse : parseChannelType ch.type = .ok type)
    (hadapter : getAdapter ex.name type = some adapter) (hsym : sym ∈ ch.symbols)
    (hsen : sym.enabled = true) (hok : (launched cfg).1 = .ok ()) :
    ⟨.crypto, ⟨ex.name, ch.type, sym.name⟩, symbolInfo ex.name adapter.channelType sym⟩ ∈
      (launched cfg).2.log := by
  have hcores : cfg.parserCores ≠ [] := fun h => by
    rw [launched_of_isEmpty h] at hok
    cases hok
  have hbuild := establishes_buildCryptoChannels (P := fun p => _ ∈ p.log)
    hex hen hch hparse hadapter hsym hsen
    (establishes_register fun p _ => List.mem_append_right p.log List.mem_cons_self)
    fun _ _ _ _ => keeps_register fun _ _ hp _ => List.mem_append_left _ hp
  rw [launched_eq hcores] at hok ⊢
  cases h : runFrom (buildCryptoChannels cfg) (initial cfg) with
  | mk res p =>
    rw [h] at hok
    cases res with
    | error e => cases hok
    | ok _ =>
      have hp := hbuild h
      exact keeps_registerFutures (P := fun p => _ ∈ p.log) (fun _ _ _ _ _ _ _ _ _ =>
        keeps_register fun _ _ hp _ => List.mem_append_left _ hp) _ hp

/-- Whatever the configuration: when no exchange with adapters has an enabled futures symbol, each
entry belongs to one pipeline and keeps its type; and once start-up has gone through, only then. -/
theorem collectedOnce_iff (cfg : RootConfig) :
    (NoAdapterFutures cfg → CollectedOnce (launched cfg).2) ∧
    ((launched cfg).1 = .ok () → (CollectedOnce (launched cfg).2 ↔ NoAdapterFutures cfg)) := by
  refine ⟨collectedOnce_of_noAdapterFutures, fun hok =>
    ⟨fun h => ?_, collectedOnce_of_noAdapterFutures⟩⟩
  intro ex hex hen hadapter ch hch htype sym hsym
  by_contra hsen
  obtain ⟨adapter, hadapter⟩ := Option.ne_none_iff_exists'.mp hadapter
  have hparse : parseChannelType ch.type = .ok .futures := by rw [htype]; rfl
  have hmem := mem_log_of_adapter hex hen hch hparse hadapter hsym (by simpa using hsen) hok
  -- the registered type is the adapter's
  have hname : channelTypeName adapter.channelType = ch.type := (h.info _ hmem).2.1
  rw [htype] at hname
  have hfutures : adapter.channelType = .futures := channelTypeName_injective hname
  cases adapter <;> cases hfutures

/-- Adapters for spot and perpetual, and futures on an exchange without adapters. -/
theorem cryptoPersisted_collectedOnce :
    NoAdapterFutures cryptoPersisted ∧ CollectedOnce (launched cryptoPersisted).2 := by
  have hcfg : NoAdapterFutures cryptoPersisted := by unfold NoAdapterFutures; decide +kernel
  exact ⟨hcfg, (collectedOnce_iff cryptoPersisted).1 hcfg⟩

/-- A futures channel of an exchange that has adapters. -/
def binanceFutures : RootConfig where
  exchanges :=
    [{ name := "binance", enabled := true, channels :=
        [{ type := "futures", symbols := [{ name := "BTCUSDT" }] }] }]

/-- The crypto pipeline takes the entry up as a perpetual channel, and the Rithmic pipeline takes it
up a second time. -/
theorem binanceFutures_taken_twice :
    KnownTypes binanceFutures ∧ (launched binanceFutures).1.toOption = some () ∧
    (launched binanceFutures).2.log.map (fun r => (r.pipeline, r.entry, r.info.topic)) =
      [(.crypto, ⟨"binance", "futures", "BTCUSDT"⟩, "binance:perpetual:BTCUSDT"),
       (.rithmic, ⟨"binance", "futures", "BTCUSDT"⟩, "binance:futures:BTCUSDT")] ∧
    ¬ CollectedOnce (launched binanceFutures).2 := by
  have hlog : (launched binanceFutures).2.log.map (fun r => (r.pipeline, r.entry, r.info.topic)) =
      [(.crypto, ⟨"binance", "futures", "BTCUSDT"⟩, "binance:perpetual:BTCUSDT"),
       (.rithmic, ⟨"binance", "futures", "BTCUSDT"⟩, "binance:futures:BTCUSDT")] := by
    decide +kernel
  refine ⟨by unfold KnownTypes; decide +kernel, by decide +kernel, hlog, fun h => ?_⟩
  obtain ⟨a, ha, hcrypto⟩ := List.mem_map.mp (hlog ▸ List.mem_cons_self)
  obtain ⟨b, hb, hrithmic⟩ := List.mem_map.mp
    (hlog ▸ List.mem_cons_of_mem _ List.mem_cons_self)
  simp only [Prod.mk.injEq] at hcrypto hrithmic
  have hpipe := h.once a ha b hb (hcrypto.2.1.trans hrithmic.2.1.symm)
  rw [hcrypto.1, hrithmic.1] at hpipe
  cases hpipe

end Pipelines

end Sqc
