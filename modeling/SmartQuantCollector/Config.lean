import SmartQuantCollector.Common.MarketEvent

/-! # Configuration (`src/config/config_struct.h`, `src/config/config_loader.cpp`)

The sections of `config.yaml` that the modelled functions read. -/

namespace Sqc

structure SymbolConfig where
  name : String
  enabled : Bool := true
  depthLevel : UInt32 := 5
  persistToDisk : Bool := true

structure ChannelConfig where
  type : String
  symbols : List SymbolConfig

structure ExchangeConfig where
  name : String
  enabled : Bool := false
  channels : List ChannelConfig

structure RithmicConfig where
  shmName : String := "/sqc_rithmic"
  engineCore : UInt32 := 8
  forwarderCore : UInt32 := 9

structure RootConfig where
  /-- `global.cpu_affinity` -/
  cpuAffinity : Bool := true
  /-- `threading_matrix.parser_cores` -/
  parserCores : List UInt32 := [3, 4]
  /-- `storage.persist_to_disk` -/
  persistToDisk : Bool := true
  rithmic : RithmicConfig := {}
  exchanges : List ExchangeConfig

/-- What `ParseSymbol` lets through. -/
def SymbolConfig.accepted (s : SymbolConfig) : Bool :=
  s.name.utf8ByteSize ≤ 11 && s.depthLevel.toNat ≤ kMaxOrderbookLevels

/-- What the loader lets through: nothing else in the sections above is checked. -/
def RootConfig.accepted (cfg : RootConfig) : Bool :=
  cfg.exchanges.all fun ex => ex.channels.all fun ch => ch.symbols.all (·.accepted)

end Sqc
