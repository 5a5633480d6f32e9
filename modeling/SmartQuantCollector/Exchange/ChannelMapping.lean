import Mathlib.Logic.Function.Basic
import SmartQuantCollector.Exchange.ExchangeAdapter

/-! # Channel ids (`src/common/channel_id_hash.h`, `src/exchange/channel_mapping.cpp`) -/

namespace Sqc

/-! ## `ComputeChannelId` -/

def kBasis : UInt64 := 14695981039346656037

def kPrime : UInt64 := 1099511628211

/-- One round of FNV-1a. -/
def fnvRound (h : UInt64) (c : UInt8) : UInt64 := (h ^^^ c.toUInt64) * kPrime

def fnvString (h : UInt64) (s : String) : UInt64 := s.toUTF8.toList.foldl fnvRound h

/-- FNV-1a over `exchange:type_name:symbol`, folded to 32 bits. -/
def computeChannelId (exchange typeName symbol : String) : UInt32 :=
  let h := fnvString kBasis exchange
  let h := fnvRound h ':'.toUInt8
  let h := fnvString h typeName
  let h := fnvRound h ':'.toUInt8
  let h := fnvString h symbol
  (h ^^^ (h >>> 32)).toUInt32

/-! ## `ChannelRegistry` -/

structure ChannelInfo where
  id : UInt32 := 0
  exchange : String
  type : ChannelType := .spot
  symbol : String
  depthLevel : UInt32 := 10
  topicPrefix : String := ""

namespace ChannelInfo

/-- The channel in the form that `Register` hashes. -/
def channelId (info : ChannelInfo) : UInt32 :=
  computeChannelId info.exchange (channelTypeName info.type) info.symbol

def topic (info : ChannelInfo) : String :=
  info.exchange ++ ":" ++ channelTypeName info.type ++ ":" ++ info.symbol

theorem topic_ne_empty (info : ChannelInfo) : info.topic ≠ "" := by
  intro h
  have := congrArg String.length h
  simp [topic] at this

/-- Both describe one channel; the depth is not part of it. -/
def SameChannel (a b : ChannelInfo) : Prop :=
  a.exchange = b.exchange ∧ a.type = b.type ∧ a.symbol = b.symbol

instance (a b : ChannelInfo) : Decidable (SameChannel a b) := by
  unfold SameChannel; infer_instance

theorem SameChannel.channelId_eq {a b : ChannelInfo} (h : a.SameChannel b) :
    a.channelId = b.channelId := by
  obtain ⟨he, ht, hs⟩ := h
  rw [channelId, channelId, he, ht, hs]

end ChannelInfo

/-- `channels_` of `ChannelRegistry`. -/
abbrev ChannelRegistry := UInt32 → Option ChannelInfo

/-- `ChannelRegistry::Register`. A channel that is there already keeps its entry; a second channel
with the same id is an error. -/
def ChannelRegistry.register (reg : ChannelRegistry) (info : ChannelInfo) :
    Except String (ChannelRegistry × UInt32) :=
  let id := info.channelId
  match reg id with
  | some existing =>
    if existing.SameChannel info then .ok (reg, id)
    else .error ("channel_id collision: id=" ++ toString id ++ " already mapped to " ++
      existing.topic ++ ", cannot also map " ++ info.topic)
  | none =>
    .ok (Function.update reg id (some { info with id := id, topicPrefix := info.topic }), id)

theorem ChannelRegistry.register_cases (reg : ChannelRegistry) (info : ChannelInfo) :
    (∃ old, reg info.channelId = some old ∧ old.SameChannel info ∧
      reg.register info = .ok (reg, info.channelId)) ∨
    (reg info.channelId = none ∧ reg.register info = .ok (Function.update reg info.channelId
      (some { info with id := info.channelId, topicPrefix := info.topic }), info.channelId)) ∨
    ∃ old e, reg info.channelId = some old ∧ ¬ old.SameChannel info ∧
      reg.register info = .error e := by
  simp only [register]
  cases h : reg info.channelId with
  | none => exact .inr (.inl ⟨rfl, rfl⟩)
  | some old =>
    by_cases hsame : old.SameChannel info
    · exact .inl ⟨old, rfl, hsame, if_pos hsame⟩
    · exact .inr (.inr ⟨old, _, rfl, hsame, if_neg hsame⟩)

end Sqc
