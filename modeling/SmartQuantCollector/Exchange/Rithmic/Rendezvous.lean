import SmartQuantCollector.Exchange.Pipelines
import SmartQuantCollector.Exchange.Rithmic.ProcessManager

/-! # Parent and gateway (`CreateRithmicManager`, `src/rithmic_gateway/main.cpp`)

The gateway is started with the path of the configuration and derives from the file what the parent
has derived from it: the name of the shared memory and the ids of the futures symbols. The parent's
side is `CreateRithmicManager` with `Setup`, which registers the symbols in the `ChannelRegistry`
and stops at a collision; the gateway's side hashes the names and registers nothing else.

`agrees_iff` says when the two sides agree. -/

namespace Sqc
open Fallible FallibleLoop Startup Pipelines

namespace Rendezvous

/-- What a C function reads of a string that is passed by `c_str()`. -/
def cStr (s : String) : String := String.ofList (s.toList.takeWhile (· ≠ '\x00'))

/-! ## The parent -/

/-- `proc_cfg` of `CreateRithmicManager`. -/
def procConfig (cfg : RootConfig) (configPath : String) : ProcessManager.Config where
  configPath := configPath
  engineCore := cfg.rithmic.engineCore
  forwarderCore := cfg.rithmic.forwarderCore
  cpuAffinity := cfg.cpuAffinity

/-- How the system calls behind `Setup` end. -/
structure Outcomes where
  shmCreated : Bool
  spawned : Bool

/-- What the parent has after `Setup`: the name of its shared memory, and the registrations. -/
structure Parent where
  shmName : String
  pipelines : Pipelines

/-- `Setup`, up to the threads; `none` when it returns false. -/
def setup (config : ProcessManager.Config) (cfg : RootConfig) (o : Outcomes) (p : Pipelines) :
    Option Parent :=
  let p := (runFrom (registerChannels cfg) p).2
  if p.channelMap.subList.isEmpty then none
  else if !o.shmCreated then none
  else if !o.spawned then none
  else some ⟨cStr config.shmName, p⟩

/-- `CreateRithmicManager`, called with the registries that `p` holds. -/
def createRithmicManager (cfg : RootConfig) (configPath : String) (o : Outcomes) (p : Pipelines) :
    Option Parent :=
  setup (procConfig cfg configPath) cfg o p

/-! ## The gateway -/

def gatewayShmName (cfg : RootConfig) : String := cStr cfg.rithmic.shmName

/-- The loops of the gateway's `main`. -/
def registerSymbols (cfg : RootConfig) : StateM RithmicChannelMap Unit :=
  forM cfg.exchanges fun ex => do
    if ex.enabled then
      forM ex.channels fun ch => do
        if ch.type == "futures" then
          forM ch.symbols fun sym => do
            if sym.enabled then
              let id := computeChannelId ex.name "futures" sym.name
              modify fun map => map.register ex.name sym.name id sym.enabled

def gatewayChannelMap (cfg : RootConfig) : RithmicChannelMap := ((registerSymbols cfg).run {}).2

/-! ## Agreement -/

/-- The part of a `SubEntry` by which the two sides are compared. -/
def entryKey (e : SubEntry) : String × String × UInt32 := (e.exchange, e.ticker, e.channelId)

/-- The registry has the channel of the entry, as a futures channel. -/
def KnownFutures (channels : ChannelRegistry) (e : SubEntry) : Prop :=
  ∃ info, channels e.channelId = some info ∧ info.exchange = e.exchange ∧ info.type = .futures ∧
    info.symbol = e.ticker

structure Agrees (cfg : RootConfig) (configPath : String) (p : Pipelines) : Prop where
  shmName : cStr (procConfig cfg configPath).shmName = gatewayShmName cfg
  entries : ∀ o parent, createRithmicManager cfg configPath o p = some parent → ∀ key,
    key ∈ parent.pipelines.channelMap.subList.map entryKey ↔
      key ∈ (gatewayChannelMap cfg).subList.map entryKey
  known : ∀ o parent, createRithmicManager cfg configPath o p = some parent →
    ∀ e ∈ (gatewayChannelMap cfg).subList, KnownFutures parent.pipelines.world.channels e
  /-- An id that passes the gateway's `Lookup` is that of an entry the parent knows. -/
  queued : ∀ o parent, createRithmicManager cfg configPath o p = some parent →
    ∀ exchange ticker,
      (gatewayChannelMap cfg).lookup exchange ticker ≠ RithmicChannelMap.kNotFound →
      ∃ e ∈ (gatewayChannelMap cfg).subList,
        e.channelId = (gatewayChannelMap cfg).lookup exchange ticker ∧
        KnownFutures parent.pipelines.world.channels e

/-- No futures symbol has the id of another channel, of those registered before or of futures. -/
def CollisionFree (cfg : RootConfig) (channels : ChannelRegistry) : Prop :=
  (∀ e ∈ rithmicEntries cfg, ¬ Collides channels e.info) ∧
  ∀ a ∈ rithmicEntries cfg, ∀ b ∈ rithmicEntries cfg, a.info.channelId = b.info.channelId →
    a.info.SameChannel b.info

/-- Already the first futures symbol meets a collision, so that `Setup` finds nothing to do. -/
def FirstCollides (cfg : RootConfig) (channels : ChannelRegistry) : Prop :=
  ∃ e ∈ (rithmicEntries cfg).head?, Collides channels e.info

/-! ## The gateway's map -/

/-- A futures symbol with the exchange and the channel it stands under. -/
abbrev FuturesSymbol := ExchangeConfig × ChannelConfig × SymbolConfig

def futuresInfo (t : FuturesSymbol) : ChannelInfo := symbolInfo t.1.name .futures t.2.2

def subEntry (t : FuturesSymbol) : SubEntry :=
  ⟨t.2.2.enabled, t.1.name, t.2.2.name, (futuresInfo t).channelId⟩

variable {cfg : RootConfig} {configPath : String} {p q : Pipelines} {channels : ChannelRegistry}
  {t : FuturesSymbol} {done rest : List FuturesSymbol}

def registerAt (map : RithmicChannelMap) (t : FuturesSymbol) : RithmicChannelMap :=
  map.register t.1.name t.2.2.name (futuresInfo t).channelId t.2.2.enabled

theorem gatewayChannelMap_eq (cfg : RootConfig) :
    gatewayChannelMap cfg = (futuresSymbols cfg).foldl registerAt {} := by
  have hloop : registerSymbols cfg =
      forM (futuresSymbols cfg) fun t => modify fun map => registerAt map t :=
    forM_futuresSymbols cfg fun ex ch sym => modify fun map => registerAt map (ex, ch, sym)
  have hfold : ∀ (l : List FuturesSymbol) (map : RithmicChannelMap),
      ((forM l fun t => modify fun map => registerAt map t : StateM _ Unit).run map).2 =
        l.foldl registerAt map := by
    intro l
    induction l with
    | nil => exact fun _ => rfl
    | cons t l ih => exact fun map => ih (registerAt map t)
  rw [gatewayChannelMap, hloop]
  exact hfold _ _

theorem foldl_registerAt_subList (l : List FuturesSymbol) (map : RithmicChannelMap) :
    (l.foldl registerAt map).subList = map.subList ++ l.map subEntry := by
  induction l generalizing map with
  | nil => exact (List.append_nil _).symm
  | cons t l ih =>
    rw [List.foldl_cons, ih]
    change map.subList ++ [subEntry t] ++ _ = _
    rw [List.append_assoc]
    rfl

theorem gateway_subList (cfg : RootConfig) :
    (gatewayChannelMap cfg).subList = (futuresSymbols cfg).map subEntry := by
  rw [gatewayChannelMap_eq, foldl_registerAt_subList]
  rfl

/-- The set of ids is that of the entries. -/
def IdsOfEntries (map : RithmicChannelMap) : Prop :=
  ∀ i, map.registeredIds i = true → ∃ e ∈ map.subList, e.channelId = i

theorem IdsOfEntries.register {map : RithmicChannelMap} (h : IdsOfEntries map)
    (exchange ticker : String) (id : UInt32) (enabled : Bool) :
    IdsOfEntries (map.register exchange ticker id enabled) := by
  intro i hi
  change Function.update map.registeredIds id true i = true at hi
  rw [Function.update_apply] at hi
  split at hi
  · next heq => exact ⟨_, List.mem_append_right _ List.mem_cons_self, heq.symm⟩
  · obtain ⟨e, he, hid⟩ := h i hi
    exact ⟨e, List.mem_append_left _ he, hid⟩

theorem gateway_idsOfEntries (cfg : RootConfig) : IdsOfEntries (gatewayChannelMap cfg) := by
  have hfold : ∀ (l : List FuturesSymbol) {map : RithmicChannelMap}, IdsOfEntries map →
      IdsOfEntries (l.foldl registerAt map) := by
    intro l
    induction l with
    | nil => exact fun h => h
    | cons t l ih => exact fun h => ih (h.register _ _ _ _)
  rw [gatewayChannelMap_eq]
  exact hfold _ nofun

/-- An id from `Lookup` is that of an entry. -/
theorem gateway_lookup {exchange ticker : String}
    (h : (gatewayChannelMap cfg).lookup exchange ticker ≠ RithmicChannelMap.kNotFound) :
    ∃ e ∈ (gatewayChannelMap cfg).subList,
      e.channelId = (gatewayChannelMap cfg).lookup exchange ticker := by
  unfold RithmicChannelMap.lookup at h ⊢
  by_cases hid : (gatewayChannelMap cfg).registeredIds
      (computeChannelId exchange "futures" ticker) = true
  · simp only [if_pos hid]
    exact gateway_idsOfEntries cfg _ hid
  · simp only [if_neg hid] at h
    exact absurd rfl h

/-! ## The parent's registrations -/

theorem registerFutures_eq_forM (cfg : RootConfig) :
    Pipelines.registerFutures cfg =
      forM (futuresSymbols cfg) fun t => addSubscription t.1 t.2.1 t.2.2 := by
  rw [Pipelines.registerFutures]
  simp only [forM_futures_any]
  exact forM_futuresSymbols cfg addSubscription

/-- From `p`, the symbols of `done` were registered one after the other. -/
structure Subscribed (p : Pipelines) (done : List FuturesSymbol) (q : Pipelines) : Prop where
  subList : q.channelMap.subList = p.channelMap.subList ++ done.map subEntry
  knows : ∀ t ∈ done, Knows q.world.channels (futuresInfo t)
  mono : ∀ {i info}, p.world.channels i = some info → q.world.channels i = some info
  source : ∀ {i info}, q.world.channels i = some info → p.world.channels i = some info ∨
    ∃ t ∈ done, i = (futuresInfo t).channelId ∧ info.SameChannel (futuresInfo t)

namespace Subscribed

theorem refl (p : Pipelines) : Subscribed p [] p :=
  ⟨(List.append_nil _).symm, nofun, id, .inl⟩

theorem trans {r : Pipelines} (h : Subscribed p done q) (h' : Subscribed q rest r) :
    Subscribed p (done ++ rest) r where
  subList := by rw [h'.subList, h.subList, List.map_append, List.append_assoc]
  knows t ht := by
    rcases List.mem_append.mp ht with ht | ht
    · obtain ⟨old, hold, hsame⟩ := h.knows t ht
      exact ⟨old, h'.mono hold, hsame⟩
    · exact h'.knows t ht
  mono hi := h'.mono (h.mono hi)
  source hi := by
    rcases h'.source hi with hi | ⟨t, ht, hsame⟩
    · exact (h.source hi).imp_right fun ⟨t, ht, hsame⟩ => ⟨t, List.mem_append_left _ ht, hsame⟩
    · exact .inr ⟨t, List.mem_append_right _ ht, hsame⟩

end Subscribed

theorem addSubscription_cases (p : Pipelines) (t : FuturesSymbol) :
    (∃ q, runFrom (addSubscription t.1 t.2.1 t.2.2) p = (.ok (), q) ∧ Subscribed p [t] q) ∨
    (Collides p.world.channels (futuresInfo t) ∧
      ∃ e, runFrom (addSubscription t.1 t.2.1 t.2.2) p = (.error e, p)) := by
  unfold addSubscription
  rcases registerSymbol_cases p _ _ with ⟨channels, hreg, hrun⟩ | ⟨hcol, e, hrun⟩
  · refine .inl ⟨_, runFrom_bind_ok hrun, rfl, ?_, fun hi => hreg.mono hi, fun hi => ?_⟩
    · rintro _ (_ | ⟨_, ⟨⟩⟩)
      exact hreg.knows
    · refine (hreg.source hi).imp_right ?_
      rintro ⟨hid, rfl⟩
      exact ⟨t, List.mem_cons_self, hid, rfl, rfl, rfl⟩
  · exact .inr ⟨hcol, e, runFrom_bind_error hrun⟩

theorem forM_addSubscription_subscribed
    (h : runFrom (forM done fun t => addSubscription t.1 t.2.1 t.2.2) p = (.ok (), q)) :
    Subscribed p done q := by
  induction done generalizing p with
  | nil => cases h; exact Subscribed.refl _
  | cons t done ih =>
    rw [List.forM_cons, runFrom_bind] at h
    rcases addSubscription_cases p t with ⟨r, hrun, hsub⟩ | ⟨-, e, hrun⟩
    · rw [hrun] at h
      exact hsub.trans (ih h)
    · rw [hrun] at h
      cases h

/-- `RegisterChannels` registers all futures symbols, or those up to the first collision. -/
theorem registerChannels_cases (cfg : RootConfig) (p : Pipelines) :
    ∃ done rest, futuresSymbols cfg = done ++ rest ∧
      Subscribed { p with channelMap := {} } done (runFrom (registerChannels cfg) p).2 ∧
      ∀ t ∈ rest.head?,
        Collides (runFrom (registerChannels cfg) p).2.world.channels (futuresInfo t) := by
  rw [runFrom_registerChannels, registerFutures_eq_forM]
  obtain ⟨done, rest, q, hsplit, hdone, hrest⟩ := forM_outcome (futuresSymbols cfg)
    (fun t => addSubscription t.1 t.2.1 t.2.2) { p with channelMap := {} }
  have hsub := forM_addSubscription_subscribed hdone
  refine ⟨done, rest, hsplit, ?_⟩
  rcases hrest with rfl | ⟨t, ts, e, u, rfl, hstop, hrun⟩
  · rw [hsplit, List.append_nil, hdone]
    exact ⟨hsub, nofun⟩
  · -- the body that threw left the state as it was
    rcases addSubscription_cases q t with ⟨r, hok, -⟩ | ⟨hcol, e', herr⟩
    · rw [hok] at hstop
      cases hstop
    · rw [herr] at hstop
      cases hstop
      rw [hrun]
      refine ⟨hsub, ?_⟩
      rintro _ ⟨⟩
      exact hcol

/-! ## When they agree -/

theorem collisionFree_iff (cfg : RootConfig) (channels : ChannelRegistry) :
    CollisionFree cfg channels ↔ (∀ t ∈ futuresSymbols cfg, ¬ Collides channels (futuresInfo t)) ∧
      ∀ a ∈ futuresSymbols cfg, ∀ b ∈ futuresSymbols cfg,
        (futuresInfo a).channelId = (futuresInfo b).channelId →
        (futuresInfo a).SameChannel (futuresInfo b) := by
  rw [CollisionFree, rithmicEntries_eq]
  simp only [List.forall_mem_map]
  rfl

theorem firstCollides_iff (cfg : RootConfig) (channels : ChannelRegistry) :
    FirstCollides cfg channels ↔
      ∃ t ∈ (futuresSymbols cfg).head?, Collides channels (futuresInfo t) := by
  rw [FirstCollides, rithmicEntries_eq, List.head?_map]
  simp only [Option.mem_map, exists_exists_and_eq_and]
  rfl

theorem not_collides_of_knows {info : ChannelInfo} (h : Knows channels info) :
    ¬ Collides channels info := by
  rintro ⟨old, hold, hne⟩
  obtain ⟨other, hother, hsame⟩ := h
  rw [hold] at hother
  cases hother
  exact hne hsame

theorem knownFutures_iff : KnownFutures channels (subEntry t) ↔ Knows channels (futuresInfo t) :=
  Iff.rfl

/-- `Setup` succeeds when something was registered and the system calls do. -/
theorem createRithmicManager_eq_some {o : Outcomes} {parent : Parent} :
    createRithmicManager cfg configPath o p = some parent ↔
      (runFrom (registerChannels cfg) p).2.channelMap.subList ≠ [] ∧ o.shmCreated = true ∧
        o.spawned = true ∧ ⟨cStr (procConfig cfg configPath).shmName,
          (runFrom (registerChannels cfg) p).2⟩ = parent := by
  unfold createRithmicManager setup
  obtain ⟨shm, spawn⟩ := o
  cases shm <;> cases spawn <;> simp

section

variable (hsplit : futuresSymbols cfg = done ++ rest)
  (hsub : Subscribed { p with channelMap := {} } done q)
  (hstop : ∀ t ∈ rest.head?, Collides q.world.channels (futuresInfo t))
include hsplit hsub hstop

theorem rest_eq_nil_iff : rest = [] ↔ CollisionFree cfg p.world.channels := by
  rw [collisionFree_iff, hsplit]
  constructor
  · rintro rfl
    rw [List.append_nil]
    constructor
    · rintro t ht ⟨old, hold, hne⟩
      exact not_collides_of_knows (hsub.knows t ht) ⟨old, hsub.mono hold, hne⟩
    · exact fun a ha b hb => (hsub.knows a ha).sameChannel (hsub.knows b hb)
  · rintro ⟨hold, hsame⟩
    cases rest with
    | nil => rfl
    | cons t rest =>
      have ht : t ∈ done ++ t :: rest := List.mem_append_right _ List.mem_cons_self
      obtain ⟨old, hid, hne⟩ := hstop t rfl
      -- the other channel was there before, or is one of those registered
      rcases hsub.source hid with hp | ⟨a, ha, hida, hsamea⟩
      · exact absurd ⟨old, hp, hne⟩ (hold t ht)
      · obtain ⟨h₁, h₂, h₃⟩ := hsame a (List.mem_append_left _ ha) t ht hida.symm
        exact absurd ⟨hsamea.1.trans h₁, hsamea.2.1.trans h₂, hsamea.2.2.trans h₃⟩ hne

theorem done_eq_nil_iff : done = [] ∧ rest ≠ [] ↔ FirstCollides cfg p.world.channels := by
  rw [firstCollides_iff, hsplit]
  constructor
  · rintro ⟨rfl, hne⟩
    cases rest with
    | nil => exact absurd rfl hne
    | cons t rest =>
      obtain ⟨old, hid, hdiff⟩ := hstop t rfl
      rcases hsub.source hid with hp | ⟨a, ⟨⟩, -⟩
      exact ⟨t, rfl, old, hp, hdiff⟩
  · rintro ⟨t, ht, old, hold, hdiff⟩
    cases done with
    | nil => exact ⟨rfl, fun h => by subst h; cases ht⟩
    | cons a done =>
      cases ht
      exact absurd ⟨old, hsub.mono hold, hdiff⟩
        (not_collides_of_knows (hsub.knows t List.mem_cons_self))

end

/-- `CreateRithmicManager` leaves the name at its default. -/
theorem cStr_procConfig_shmName : cStr (procConfig cfg configPath).shmName = "/sqc_rithmic" := by
  change cStr "/sqc_rithmic" = "/sqc_rithmic"
  decide

/-- The two sides agree exactly when the file leaves the name of the shared memory at its default
and no futures symbol collides, or already the first one does (then there is no parent's side). -/
theorem agrees_iff (cfg : RootConfig) (configPath : String) (p : Pipelines) :
    Agrees cfg configPath p ↔ cStr cfg.rithmic.shmName = "/sqc_rithmic" ∧
      (CollisionFree cfg p.world.channels ∨ FirstCollides cfg p.world.channels) := by
  obtain ⟨done, rest, hsplit, hsub, hstop⟩ := registerChannels_cases cfg p
  rw [← rest_eq_nil_iff hsplit hsub hstop, ← done_eq_nil_iff hsplit hsub hstop]
  constructor
  · intro h
    refine ⟨h.shmName.symm.trans cStr_procConfig_shmName, ?_⟩
    by_contra hnot
    obtain ⟨hrest, hdone⟩ := not_or.mp hnot
    have hdone : done ≠ [] := fun hnil => hdone ⟨hnil, hrest⟩
    cases rest with
    | nil => exact hrest rfl
    | cons t rest =>
      -- `Setup` succeeds, and the gateway registers the symbol at which the parent stopped
      have hnil : (runFrom (registerChannels cfg) p).2.channelMap.subList ≠ [] := by
        rw [hsub.subList]
        simpa using hdone
      have hknown := h.known ⟨true, true⟩ _
        (createRithmicManager_eq_some.mpr ⟨hnil, rfl, rfl, rfl⟩) (subEntry t) (by
          rw [gateway_subList, hsplit, List.map_append]
          exact List.mem_append_right _ List.mem_cons_self)
      exact not_collides_of_knows (knownFutures_iff.mp hknown) (hstop t rfl)
  · rintro ⟨hname, hcase⟩
    -- when `Setup` succeeds, all futures symbols were registered
    have hall : ∀ o parent, createRithmicManager cfg configPath o p = some parent →
        Subscribed { p with channelMap := {} } (futuresSymbols cfg) parent.pipelines := by
      intro o parent hparent
      obtain ⟨hne, -, -, rfl⟩ := createRithmicManager_eq_some.mp hparent
      rcases hcase with rfl | ⟨rfl, -⟩
      · rwa [hsplit, List.append_nil]
      · exact absurd hsub.subList hne
    have hknown : ∀ o parent, createRithmicManager cfg configPath o p = some parent →
        ∀ e ∈ (gatewayChannelMap cfg).subList, KnownFutures parent.pipelines.world.channels e := by
      intro o parent hparent e he
      rw [gateway_subList] at he
      obtain ⟨t, ht, rfl⟩ := List.mem_map.mp he
      exact knownFutures_iff.mpr ((hall o parent hparent).knows t ht)
    refine ⟨cStr_procConfig_shmName.trans hname.symm, fun o parent hparent key => ?_, hknown,
      fun o parent hparent exchange ticker hfound => ?_⟩
    · rw [(hall o parent hparent).subList, gateway_subList]
      rfl
    · obtain ⟨e, he, hid⟩ := gateway_lookup hfound
      exact ⟨e, he, hid, hknown o parent hparent e he⟩

/-- The state in which `main` calls `CreateRithmicManager`. -/
def beforeRithmic (cfg : RootConfig) : Pipelines :=
  (runFrom (Pipelines.buildCryptoChannels cfg) (initial cfg)).2.freezeChannels

theorem goldFutures_agrees :
    Agrees goldFutures "config/config.yaml" (beforeRithmic goldFutures) := by
  refine (agrees_iff ..).mpr ⟨by decide, .inl ⟨?_, ?_⟩⟩
  · rintro e - ⟨old, ⟨⟩, -⟩
  · decide +kernel

/-- A name of its own for the shared memory. -/
def renamedShm : RootConfig := { goldFutures with rithmic := { shmName := "/sqc_test" } }

/-- Two contracts of one exchange with the same id. -/
def collidingFutures : RootConfig where
  exchanges :=
    [{ name := "COMEX", enabled := true, channels :=
        [{ type := "futures", symbols := [{ name := "AOZ31" }, { name := "BHH29" }] }] }]

/-- The gateway opens a shared memory that the parent does not create; and it subscribes to a symbol
at which the parent stopped. -/
theorem rendezvous_missed :
    ((createRithmicManager renamedShm "config/config.yaml" ⟨true, true⟩
        (beforeRithmic renamedShm)).map (·.shmName) = some "/sqc_rithmic" ∧
      gatewayShmName renamedShm = "/sqc_test" ∧
      ¬ Agrees renamedShm "config/config.yaml" (beforeRithmic renamedShm)) ∧
    (createRithmicManager collidingFutures "config/config.yaml" ⟨true, true⟩
        (beforeRithmic collidingFutures)).map (·.pipelines.channelMap.subList.map entryKey) =
          some [("COMEX", "AOZ31", 1357121882)] ∧
      (gatewayChannelMap collidingFutures).subList.map entryKey =
        [("COMEX", "AOZ31", 1357121882), ("COMEX", "BHH29", 1357121882)] ∧
      ¬ Agrees collidingFutures "config/config.yaml" (beforeRithmic collidingFutures) := by
  have hparent : (createRithmicManager collidingFutures "config/config.yaml" ⟨true, true⟩
      (beforeRithmic collidingFutures)).map (·.pipelines.channelMap.subList.map entryKey) =
        some [("COMEX", "AOZ31", 1357121882)] := by decide +kernel
  have hgateway : (gatewayChannelMap collidingFutures).subList.map entryKey =
      [("COMEX", "AOZ31", 1357121882), ("COMEX", "BHH29", 1357121882)] := by decide +kernel
  refine ⟨⟨by decide +kernel, by decide, fun h => ?_⟩, hparent, hgateway, fun h => ?_⟩
  · exact absurd h.shmName (by decide)
  · obtain ⟨parent, hsome, hkeys⟩ := Option.map_eq_some_iff.mp hparent
    have := (h.entries _ parent hsome ("COMEX", "BHH29", 1357121882)).mpr (by simp [hgateway])
    simp [hkeys] at this

end Rendezvous

end Sqc
