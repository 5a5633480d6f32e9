import SmartQuantCollector.Exchange.Pipelines
import SmartQuantCollector.Exchange.RegistrySoundness

/-! # Reserved channel ids

The sentinel of a dropped event has channel id 0, and `RithmicChannelMap::Lookup` answers
`UINT32_MAX` for a ticker it does not know. No code keeps a channel from getting one of these ids:
it gets one just in case the two halves of the 64-bit hash of its topic are equal or complementary
(`reservedFree_iff`). -/

namespace Sqc

namespace ChannelInfo

/-- FNV-1a over `exchange:type_name:symbol`, before it is folded. -/
def hash (info : ChannelInfo) : UInt64 := fnvString kBasis info.topic

def upper (info : ChannelInfo) : UInt32 := (info.hash >>> 32).toUInt32

def lower (info : ChannelInfo) : UInt32 := info.hash.toUInt32

theorem channelId_eq_xor (info : ChannelInfo) : info.channelId = info.lower ^^^ info.upper := by
  rw [channelId_eq]
  exact UInt64.toUInt32_xor ..

theorem channelId_eq_zero_iff (info : ChannelInfo) :
    info.channelId = 0 ↔ info.lower = info.upper := by
  rw [channelId_eq_xor]
  exact UInt32.xor_eq_zero_iff

theorem channelId_eq_notFound_iff (info : ChannelInfo) :
    info.channelId = RithmicChannelMap.kNotFound ↔ info.lower = ~~~ info.upper := by
  have hones : RithmicChannelMap.kNotFound = -1 := by decide
  rw [channelId_eq_xor, hones, ← UInt32.xor_neg_one]
  constructor
  · intro h
    rw [← h, UInt32.xor_comm info.lower, ← UInt32.xor_assoc, UInt32.xor_self, UInt32.zero_xor]
  · intro h
    rw [h, UInt32.xor_comm, ← UInt32.xor_assoc, UInt32.xor_self, UInt32.zero_xor]

/-- The id of the channel is neither of the reserved ones. -/
theorem channelId_unreserved_iff (info : ChannelInfo) :
    (info.channelId ≠ 0 ∧ info.channelId ≠ RithmicChannelMap.kNotFound) ↔
      info.lower ≠ info.upper ∧ info.lower ≠ ~~~ info.upper := by
  rw [Ne, Ne, channelId_eq_zero_iff, channelId_eq_notFound_iff]

end ChannelInfo

/-! ## The two registries -/

/-- `ChannelRegistry` and the `RithmicChannelMap` of the futures. -/
structure Channels where
  registry : ChannelRegistry := fun _ => none
  channelMap : RithmicChannelMap := {}

namespace Channels

/-- A call of `ChannelRegistry::Register`. Futures are registered by `RegisterChannels`, which hands
the id on to the channel map when the call returns. -/
def register (c : Channels) (info : ChannelInfo) : Channels :=
  match c.registry.call info with
  | (registry, .ok id) =>
    { registry := registry
      channelMap := if info.type = .futures then
          c.channelMap.register info.exchange info.symbol id else c.channelMap }
  | (registry, .error _) => { c with registry := registry }

def after (infos : List ChannelInfo) : Channels := infos.foldl register {}

/-- No channel has a reserved id, no sentinel is dispatched, and no ticker of the channel map is
reported as not found. -/
structure ReservedFree (c : Channels) : Prop where
  ids : ∀ id info, c.registry id = some info → id ≠ 0 ∧ id ≠ RithmicChannelMap.kNotFound
  sentinel : ∀ k nowNs, DataDispatcher.onEvent c.registry k default nowNs = none
  found : ∀ sub ∈ c.channelMap.subList,
    c.channelMap.lookup sub.exchange sub.ticker ≠ RithmicChannelMap.kNotFound

/-- A ticker of the channel map is there with the id of a channel that the registry has. -/
def Mapped (c : Channels) : Prop :=
  ∀ sub ∈ c.channelMap.subList, sub.channelId = computeChannelId sub.exchange "futures" sub.ticker ∧
    c.channelMap.registeredIds sub.channelId = true ∧ (c.registry sub.channelId).isSome = true

variable {c : Channels} {infos : List ChannelInfo}

theorem after_concat (infos : List ChannelInfo) (info : ChannelInfo) :
    after (infos ++ [info]) = (after infos).register info := by
  rw [after, List.foldl_append]
  rfl

theorem registry_register (c : Channels) (info : ChannelInfo) :
    (c.register info).registry = (c.registry.call info).1 := by
  unfold register
  split
  next h => rw [h]
  next h => rw [h]

theorem registry_after (infos : List ChannelInfo) :
    (after infos).registry = ChannelRegistry.after infos := by
  induction infos using List.reverseRecOn with
  | nil => rfl
  | append_singleton infos info ih =>
    rw [after_concat, registry_register, ih, ChannelRegistry.after_concat]

/-- A call that returns leaves every entry of the registry in place. -/
theorem Mapped.returned (h : Mapped c) (info : ChannelInfo) {registry : ChannelRegistry}
    (hcall : c.registry.call info = (registry, .ok info.channelId))
    (hkeep : ∀ id, (c.registry id).isSome = true → (registry id).isSome = true)
    (hnew : (registry info.channelId).isSome = true) : Mapped (c.register info) := by
  unfold Channels.register
  rw [hcall]
  dsimp only
  split
  next htype =>
    intro sub hsub
    rcases List.mem_append.mp hsub with hsub | hsub
    · obtain ⟨hid, hregistered, hsome⟩ := h sub hsub
      refine ⟨hid, ?_, hkeep _ hsome⟩
      simp only [RithmicChannelMap.register]
      rw [Function.update_apply, hregistered, ite_self]
    · rw [List.mem_singleton.mp hsub]
      refine ⟨?_, Function.update_self .., hnew⟩
      show info.channelId = computeChannelId info.exchange "futures" info.symbol
      rw [ChannelInfo.channelId, htype, channelTypeName]
  next =>
    intro sub hsub
    obtain ⟨hid, hregistered, hsome⟩ := h sub hsub
    exact ⟨hid, hregistered, hkeep _ hsome⟩

theorem Mapped.register (h : Mapped c) (info : ChannelInfo) : Mapped (c.register info) := by
  rcases c.registry.call_cases info with ⟨old, hold, -, hcall⟩ | ⟨-, hcall⟩ | ⟨_, e, _, -, hcall⟩
  · refine h.returned info hcall (fun _ hid => hid) ?_
    rw [hold]
    rfl
  · refine h.returned info hcall (fun id hid => ?_) ?_
    · rw [Function.update_apply]
      split
      · rfl
      · exact hid
    · rw [Function.update_self]
      rfl
  · unfold Channels.register
    rw [hcall]
    exact h

theorem mapped_after (infos : List ChannelInfo) : Mapped (after infos) := by
  induction infos using List.reverseRecOn with
  | nil => exact fun sub hsub => absurd hsub List.not_mem_nil
  | append_singleton infos info ih =>
    rw [after_concat]
    exact ih.register info

/-! ## Reserved ids -/

/-- With no reserved id in the registry nothing goes wrong. -/
theorem Mapped.reservedFree (h : Mapped c)
    (hids : ∀ id info, c.registry id = some info → id ≠ 0 ∧ id ≠ RithmicChannelMap.kNotFound) :
    ReservedFree c where
  ids := hids
  sentinel k nowNs := by
    have hnone : c.registry 0 = none := by
      rw [Option.eq_none_iff_forall_ne_some]
      exact fun info hinfo => (hids 0 info hinfo).1 rfl
    cases k with
    | tick | depth | bookTicker => exact Option.map_eq_none_iff.mpr hnone
  found sub hsub := by
    obtain ⟨hid, hregistered, hsome⟩ := h sub hsub
    obtain ⟨info, hinfo⟩ := Option.isSome_iff_exists.mp hsome
    simp only [RithmicChannelMap.lookup, ← hid, hregistered, if_true]
    exact (hids _ info hinfo).2

/-- Reserved ids stay free just in case no channel is registered whose hash has equal or
complementary halves. -/
theorem reservedFree_iff (infos : List ChannelInfo) :
    ReservedFree (after infos) ↔
      ∀ info ∈ infos, info.lower ≠ info.upper ∧ info.lower ≠ ~~~ info.upper := by
  have hids : (∀ id info, (after infos).registry id = some info →
        id ≠ 0 ∧ id ≠ RithmicChannelMap.kNotFound) ↔
      ∀ info ∈ infos, info.lower ≠ info.upper ∧ info.lower ≠ ~~~ info.upper := by
    rw [registry_after]
    constructor
    · intro h info hinfo
      obtain ⟨entry, hentry⟩ :=
        Option.isSome_iff_exists.mp (ChannelRegistry.isSome_after_of_mem hinfo)
      rw [← info.channelId_unreserved_iff]
      exact h _ entry hentry
    · intro h id entry hentry
      rw [ChannelRegistry.after_eq] at hentry
      obtain ⟨info, hfind, -⟩ := Option.map_eq_some_iff.mp hentry
      have hid : info.channelId = id := by simpa using List.find?_some hfind
      rw [← hid, info.channelId_unreserved_iff]
      exact h info (List.mem_of_find?_eq_some hfind)
  constructor
  · intro h
    exact hids.mp h.ids
  · intro h
    exact (mapped_after infos).reservedFree (hids.mpr h)

/-- Two futures whose ids are the reserved ones. -/
def reservedFutures : List ChannelInfo :=
  [{ exchange := "CME", type := .futures, symbol := "JJTEULZ" },
    { exchange := "CME", type := .futures, symbol := "YWCUKAB" }]

/-- The sentinel of a dropped event is published as a tick of the first one, and the second one is
registered and not found. -/
theorem reserved_ids_assigned :
    (reservedFutures.all fun info => ({ name := info.symbol : SymbolConfig }).accepted) = true ∧
    ((after reservedFutures).registry 0).map (·.symbol) = some "JJTEULZ" ∧
    (DataDispatcher.onEvent (after reservedFutures).registry .tick default 0).isSome = true ∧
    ((after reservedFutures).registry RithmicChannelMap.kNotFound).map (·.symbol) =
      some "YWCUKAB" ∧
    (after reservedFutures).channelMap.subList.map (·.ticker) = ["JJTEULZ", "YWCUKAB"] ∧
    (after reservedFutures).channelMap.lookup "CME" "YWCUKAB" = RithmicChannelMap.kNotFound := by
  decide +kernel

end Channels

end Sqc
