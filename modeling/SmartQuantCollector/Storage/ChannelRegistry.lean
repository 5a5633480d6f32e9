import Mathlib.Logic.Function.Basic
import SmartQuantCollector.Exchange.ChannelMapping

/-! # `StorageChannelRegistry` (`src/storage/channel_registry.cpp`)

The registry of the storage, behind `StorageRouter::RegisterChannel` and the DolphinDB backend. The
release build is modelled: a registration after `Freeze` is logged and dropped. -/

namespace Sqc

structure ChannelMeta where
  exchange : String
  marketType : String
  symbol : String
  depthLevel : UInt32 := 0
deriving DecidableEq

structure StorageChannelRegistry where
  channels : UInt32 → Option ChannelMeta := fun _ => none
  frozen : Bool := false

namespace StorageChannelRegistry

def register (reg : StorageChannelRegistry) (channelId : UInt32) (entry : ChannelMeta) :
    StorageChannelRegistry :=
  if reg.frozen then reg
  else { reg with channels := Function.update reg.channels channelId (some entry) }

def freeze (reg : StorageChannelRegistry) : StorageChannelRegistry := { reg with frozen := true }

def find (reg : StorageChannelRegistry) (channelId : UInt32) : Option ChannelMeta :=
  reg.channels channelId

end StorageChannelRegistry

/-- The router with its DolphinDB backend, as far as registration is concerned. -/
structure StorageRouter where
  persistToDisk : Bool
  registry : StorageChannelRegistry := {}

namespace StorageRouter

/-- What `RegisterChannel` hands to the backend. -/
def entry (info : ChannelInfo) : ChannelMeta :=
  ⟨info.exchange, channelTypeName info.type, info.symbol, info.depthLevel⟩

def registerChannel (router : StorageRouter) (channelId : UInt32) (info : ChannelInfo)
    (persistToDisk : Bool) : StorageRouter :=
  if !router.persistToDisk || !persistToDisk then router
  else { router with registry := router.registry.register channelId (entry info) }

def freezeChannels (router : StorageRouter) : StorageRouter :=
  { router with registry := router.registry.freeze }

end StorageRouter

end Sqc
