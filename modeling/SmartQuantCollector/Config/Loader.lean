import SmartQuantCollector.Common.StringUtils
import SmartQuantCollector.Config
import SmartQuantCollector.Lib.YamlTree

/-! # `LoadConfig` (`src/config/config_loader.cpp`, `src/config/config_struct.h`)

The whole of `config.yaml`, read from the tree that yaml-cpp makes of the file. Absent keys keep the
defaults of `config_struct.h`; a key that is there has to convert. Only the names and the depth
levels of symbols are checked beyond that.

What yaml-cpp makes of nodes and texts is a parameter (`Yaml`), with the texts that a document needs
as named hypotheses (`Texts`). `load_ok_iff` says which configurations come out of the loader: those
that `RootConfig.accepted` lets through, with a throttle that yaml-cpp can read, each of them from a
document that names all its fields. -/

namespace Sqc
open YamlTree

namespace Config

/-! ## `config_struct.h` -/

/-- `float`, by its bits. -/
abbrev Single := UInt32

structure GlobalConfig where
  environment : String := "production"
  logLevel : String := "info"
  cpuAffinity : Bool := true
  logFilePath : String := "./log/collector.log"

structure ThreadingConfig where
  networkCore : UInt32 := 2
  parserCores : List UInt32 := [3, 4]
  storageCore : UInt32 := 5
  pubCore : UInt32 := 6
  telemetryCore : UInt32 := 7

structure TelemetryConfig where
  prometheusEnabled : Bool := true
  listenPort : UInt16 := 8080
  reportIntervalMs : UInt32 := 1000

structure PubConfig where
  tcpEndpoint : String := "tcp://*:5555"
  ipcEndpoint : String := "ipc:///tmp/collector_pub.ipc"

structure DolphinDBConfig where
  host : String := "127.0.0.1"
  port : UInt16 := 8848
  user : String := "admin"
  /-- What the `SecureString` holds. -/
  password : String := ""
  bufferSize : UInt32 := 2000
  flushIntervalMs : UInt32 := 10
  mtwBatchSize : Int32 := 20000
  mtwThrottleSec : Single := 0x3f800000
  mtwThreadCount : Int32 := 4
  autoInitSchema : Bool := true
  healthCheckIntervalMs : UInt32 := 5000
  dfsDbPath : String := "dfs://trade_db"
  hashBuckets : Int32 := 20
  partitionGranularity : String := "day"

structure MmapConfig where
  outputPath : String := "./mmap_cache/"
  syncIntervalRecords : UInt32 := 10000

structure CsvConfig where
  outputPath : String := "./trade_data/"

structure StorageConfig where
  useEngine : String := "csv"
  persistToDisk : Bool := true
  dolphindb : DolphinDBConfig := {}
  mmap : MmapConfig := {}
  csv : CsvConfig := {}

structure SymbolConfig where
  name : String
  enabled : Bool := true
  depthLevel : UInt32 := 5
  recordTick : Bool := true
  persistToDisk : Bool := true

structure ChannelConfig where
  type : String
  symbols : List SymbolConfig := []

structure RithmicConfig where
  user : String := ""
  /-- What the `SecureString` holds. -/
  password : String := ""
  shmName : String := "/sqc_rithmic"
  engineCore : UInt32 := 8
  forwarderCore : UInt32 := 9
  sslCertFile : String := "etc/rithmic_ssl_cert_auth_params"
  domainServers : String := ""
  domainName : String := ""
  licenseServers : String := ""
  localBroker : String := ""
  loggerServers : String := ""
  appName : String := "jewa:SmartQuant"
  appVersion : String := "1.0.0.0"
  repositoryConnectPt : String := "login_agent_repositoryc"
  mdConnectPt : String := "login_agent_tpc"
  mdConnectPtAgg : String := ""
  useAggregatedMd : Bool := false
  ihConnectPt : String := ""
  tsConnectPt : String := "login_agent_opc"
  pnlConnectPt : String := ""

structure ExchangeConfig where
  name : String
  enabled : Bool := false
  channels : List ChannelConfig := []

structure RootConfig where
  global : GlobalConfig := {}
  threadingMatrix : ThreadingConfig := {}
  telemetry : TelemetryConfig := {}
  pub : PubConfig := {}
  storage : StorageConfig := {}
  rithmic : RithmicConfig := {}
  exchanges : List ExchangeConfig := []

/-! ### The part that the rest of the development reads -/

def SymbolConfig.root (s : SymbolConfig) : Sqc.SymbolConfig where
  name := s.name
  enabled := s.enabled
  depthLevel := s.depthLevel
  persistToDisk := s.persistToDisk

def ChannelConfig.root (ch : ChannelConfig) : Sqc.ChannelConfig where
  type := ch.type
  symbols := ch.symbols.map (·.root)

def ExchangeConfig.root (ex : ExchangeConfig) : Sqc.ExchangeConfig where
  name := ex.name
  enabled := ex.enabled
  channels := ex.channels.map (·.root)

def RootConfig.root (cfg : RootConfig) : Sqc.RootConfig where
  cpuAffinity := cfg.global.cpuAffinity
  parserCores := cfg.threadingMatrix.parserCores
  persistToDisk := cfg.storage.persistToDisk
  rithmic :=
    { shmName := cfg.rithmic.shmName
      engineCore := cfg.rithmic.engineCore
      forwarderCore := cfg.rithmic.forwarderCore }
  exchanges := cfg.exchanges.map (·.root)

/-! ## `config_loader.cpp` -/

/-- What is thrown: an exception of yaml-cpp or one of the loader. -/
inductive Exception (E : Type) where
  | yaml (e : E)
  | runtimeError (what : String)

/-- What the loader uses of yaml-cpp: the nodes, and `as<T>` for the types that are not strings. The
document is a tree: a key has one node, whatever was read or removed elsewhere. -/
structure Yaml (N E : Type) extends Access N (Exception E) where
  bool : N → Except (Exception E) Bool
  uint32 : N → Except (Exception E) UInt32
  uint16 : N → Except (Exception E) UInt16
  int : N → Except (Exception E) Int32
  float : N → Except (Exception E) Single

section
variable {N E : Type} (y : Yaml N E)

def parseSymbol (node : N) : Except (Exception E) SymbolConfig := do
  let name ← y.required y.string node "name"
  let s : SymbolConfig := { name }
  if s.name.utf8ByteSize > 11 then
    throw <| .runtimeError <| "Symbol '" ++ s.name ++ "' is " ++ toString s.name.utf8ByteSize ++
      " chars (max 11). sizeof(TickData)==64 (1 cache line) requires symbol <= 11 chars."
  let enabled ← y.optional y.bool node "enabled" s.enabled
  let depthLevel ← y.optional (checkDepth s.name) node "depth_level" s.depthLevel
  let recordTick ← y.optional y.bool node "record_tick" s.recordTick
  let persistToDisk ← y.optional y.bool node "persist_to_disk" s.persistToDisk
  return { s with enabled, depthLevel, recordTick, persistToDisk }
where
  /-- The conversion of `depth_level` with its check. -/
  checkDepth (name : String) (v : N) : Except (Exception E) UInt32 := do
    let depthLevel ← y.uint32 v
    if depthLevel.toNat > kMaxOrderbookLevels then
      throw <| .runtimeError <| "Symbol '" ++ name ++ "': depth_level " ++ toString depthLevel ++
        " exceeds kMaxOrderbookLevels (" ++ toString kMaxOrderbookLevels ++ ")"
    return depthLevel

def parseChannel (node : N) : Except (Exception E) ChannelConfig := do
  let type ← y.required y.string node "type"
  let symbols ← y.itemsAt (parseSymbol y) node "symbols" []
  return { type, symbols }

def parseRithmicConfig (node : N) : Except (Exception E) RithmicConfig := do
  let r : RithmicConfig := {}
  let user ← y.optional y.string node "user" r.user
  let password ← y.optional y.string node "password" r.password
  let shmName ← y.optional y.string node "shm_name" r.shmName
  let engineCore ← y.optional y.uint32 node "engine_core" r.engineCore
  let forwarderCore ← y.optional y.uint32 node "forwarder_core" r.forwarderCore
  let sslCertFile ← y.optional y.string node "ssl_cert_file" r.sslCertFile
  let domainServers ← y.optional y.string node "domain_servers" r.domainServers
  let domainName ← y.optional y.string node "domain_name" r.domainName
  let licenseServers ← y.optional y.string node "license_servers" r.licenseServers
  let localBroker ← y.optional y.string node "local_broker" r.localBroker
  let loggerServers ← y.optional y.string node "logger_servers" r.loggerServers
  let appName ← y.optional y.string node "app_name" r.appName
  let appVersion ← y.optional y.string node "app_version" r.appVersion
  let repositoryConnectPt ←
    y.optional y.string node "repository_connect_pt" r.repositoryConnectPt
  let mdConnectPt ← y.optional y.string node "md_connect_pt" r.mdConnectPt
  let mdConnectPtAgg ← y.optional y.string node "md_connect_pt_agg" r.mdConnectPtAgg
  let useAggregatedMd ← y.optional y.bool node "use_aggregated_md" r.useAggregatedMd
  let ihConnectPt ← y.optional y.string node "ih_connect_pt" r.ihConnectPt
  let tsConnectPt ← y.optional y.string node "ts_connect_pt" r.tsConnectPt
  let pnlConnectPt ← y.optional y.string node "pnl_connect_pt" r.pnlConnectPt
  return { r with
    user, password, shmName, engineCore, forwarderCore, sslCertFile, domainServers, domainName,
    licenseServers, localBroker, loggerServers, appName, appVersion,
    repositoryConnectPt, mdConnectPt, mdConnectPtAgg, useAggregatedMd, ihConnectPt, tsConnectPt,
    pnlConnectPt }

def parseExchange (node : N) : Except (Exception E) ExchangeConfig := do
  let name ← y.required y.string node "name"
  let e : ExchangeConfig := { name }
  let enabled ← y.optional y.bool node "enabled" e.enabled
  let channels ← y.itemsAt (parseChannel y) node "channels" e.channels
  return { e with enabled, channels }

def parseGlobal (g : N) : Except (Exception E) GlobalConfig := do
  let x : GlobalConfig := {}
  let environment ← y.optional y.string g "environment" x.environment
  let logLevel ← y.optional y.string g "log_level" x.logLevel
  let cpuAffinity ← y.optional y.bool g "cpu_affinity" x.cpuAffinity
  let logFilePath ← y.optional y.string g "log_file_path" x.logFilePath
  return { x with environment, logLevel, cpuAffinity, logFilePath }

def parseThreading (t : N) : Except (Exception E) ThreadingConfig := do
  let x : ThreadingConfig := {}
  let networkCore ← y.optional y.uint32 t "network_core" x.networkCore
  let parserCores ← y.itemsAt y.uint32 t "parser_cores" x.parserCores
  let storageCore ← y.optional y.uint32 t "storage_core" x.storageCore
  let pubCore ← y.optional y.uint32 t "pub_core" x.pubCore
  let telemetryCore ← y.optional y.uint32 t "telemetry_core" x.telemetryCore
  return { x with networkCore, parserCores, storageCore, pubCore, telemetryCore }

def parseTelemetry (t : N) : Except (Exception E) TelemetryConfig := do
  let x : TelemetryConfig := {}
  let prometheusEnabled ← y.optional y.bool t "prometheus_enabled" x.prometheusEnabled
  let listenPort ← y.optional y.uint16 t "listen_port" x.listenPort
  let reportIntervalMs ← y.optional y.uint32 t "report_interval_ms" x.reportIntervalMs
  return { x with prometheusEnabled, listenPort, reportIntervalMs }

def parsePub (p : N) : Except (Exception E) PubConfig := do
  let x : PubConfig := {}
  let tcpEndpoint ← y.optional y.string p "tcp_endpoint" x.tcpEndpoint
  let ipcEndpoint ← y.optional y.string p "ipc_endpoint" x.ipcEndpoint
  return { x with tcpEndpoint, ipcEndpoint }

def parseDolphinDB (d : N) : Except (Exception E) DolphinDBConfig := do
  let x : DolphinDBConfig := {}
  let host ← y.optional y.string d "host" x.host
  let port ← y.optional y.uint16 d "port" x.port
  let user ← y.optional y.string d "user" x.user
  let password ← y.optional y.string d "password" x.password
  let bufferSize ← y.optional y.uint32 d "buffer_size" x.bufferSize
  let flushIntervalMs ← y.optional y.uint32 d "flush_interval_ms" x.flushIntervalMs
  let mtwBatchSize ← y.optional y.int d "mtw_batch_size" x.mtwBatchSize
  let mtwThrottleSec ← y.optional y.float d "mtw_throttle_sec" x.mtwThrottleSec
  let mtwThreadCount ← y.optional y.int d "mtw_thread_count" x.mtwThreadCount
  let autoInitSchema ← y.optional y.bool d "auto_init_schema" x.autoInitSchema
  let healthCheckIntervalMs ←
    y.optional y.uint32 d "health_check_interval_ms" x.healthCheckIntervalMs
  let dfsDbPath ← y.optional y.string d "dfs_db_path" x.dfsDbPath
  let hashBuckets ← y.optional y.int d "hash_buckets" x.hashBuckets
  let partitionGranularity ←
    y.optional y.string d "partition_granularity" x.partitionGranularity
  return { x with
    host, port, user, password, bufferSize, flushIntervalMs, mtwBatchSize, mtwThrottleSec,
    mtwThreadCount, autoInitSchema, healthCheckIntervalMs, dfsDbPath, hashBuckets,
    partitionGranularity }

def parseMmap (m : N) : Except (Exception E) MmapConfig := do
  let x : MmapConfig := {}
  let outputPath ← y.optional y.string m "output_path" x.outputPath
  let syncIntervalRecords ←
    y.optional y.uint32 m "sync_interval_records" x.syncIntervalRecords
  return { x with outputPath, syncIntervalRecords }

def parseCsv (node : N) : Except (Exception E) CsvConfig := do
  let x : CsvConfig := {}
  let outputPath ← y.optional y.string node "output_path" x.outputPath
  return { x with outputPath }

def parseStorage (s : N) : Except (Exception E) StorageConfig := do
  let x : StorageConfig := {}
  let useEngine ← y.optional y.string s "use_engine" x.useEngine
  let persistToDisk ← y.optional y.bool s "persist_to_disk" x.persistToDisk
  let dolphindb ← y.optional (parseDolphinDB y) s "dolphindb" x.dolphindb
  let mmap ← y.optional (parseMmap y) s "mmap" x.mmap
  let csv ← y.optional (parseCsv y) s "csv" x.csv
  return { x with useEngine, persistToDisk, dolphindb, mmap, csv }

/-- `LoadConfig` behind `LoadFile`. -/
def load (root : N) : Except (Exception E) RootConfig := do
  let config : RootConfig := {}
  let global ← y.optional (parseGlobal y) root "global" config.global
  let threadingMatrix ← y.optional (parseThreading y) root "threading_matrix" config.threadingMatrix
  let telemetry ← y.optional (parseTelemetry y) root "telemetry" config.telemetry
  let pub ← y.optional (parsePub y) root "pub" config.pub
  let storage ← y.optional (parseStorage y) root "storage" config.storage
  let rithmic ← y.optional (parseRithmicConfig y) root "rithmic" config.rithmic
  let exchanges ← y.itemsAt (parseExchange y) root "exchanges" config.exchanges
  return { config with
    global, threadingMatrix, telemetry, pub, storage, rithmic, exchanges }

end

/-! ## A document for a configuration -/

/-- Some node is converted to the float. -/
def Yaml.Readable {N E : Type} (y : Yaml N E) (x : Single) : Prop := ∃ v, y.float v = .ok x

/-- Texts that are converted back. All integers have one; of the floats only the default has to be
the value of some node. -/
structure Texts {N E : Type} (y : Yaml N E) extends Documents y.toAccess where
  bool : Bool → String
  uint32 : UInt32 → String
  uint16 : UInt16 → String
  int : Int32 → String
  bool_text : ∀ x, y.bool (scalar (bool x)) = .ok x
  uint32_text : ∀ x, y.uint32 (scalar (uint32 x)) = .ok x
  uint16_text : ∀ x, y.uint16 (scalar (uint16 x)) = .ok x
  int_text : ∀ x, y.int (scalar (int x)) = .ok x
  float_default : y.Readable ({} : DolphinDBConfig).mtwThrottleSec

attribute [simp] Texts.bool_text Texts.uint32_text Texts.uint16_text Texts.int_text

section
variable {N E : Type} {y : Yaml N E} (t : Texts y)

def writeSymbol (s : SymbolConfig) : N := t.map
  [("name", t.scalar s.name), ("enabled", t.scalar (t.bool s.enabled)),
    ("depth_level", t.scalar (t.uint32 s.depthLevel)),
    ("record_tick", t.scalar (t.bool s.recordTick)),
    ("persist_to_disk", t.scalar (t.bool s.persistToDisk))]

def writeChannel (ch : ChannelConfig) : N := t.map
  [("type", t.scalar ch.type), ("symbols", t.sequence (ch.symbols.map (writeSymbol t)))]

def writeExchange (ex : ExchangeConfig) : N := t.map
  [("name", t.scalar ex.name), ("enabled", t.scalar (t.bool ex.enabled)),
    ("channels", t.sequence (ex.channels.map (writeChannel t)))]

def writeRithmic (r : RithmicConfig) : N := t.map
  [("user", t.scalar r.user), ("password", t.scalar r.password), ("shm_name", t.scalar r.shmName),
    ("engine_core", t.scalar (t.uint32 r.engineCore)),
    ("forwarder_core", t.scalar (t.uint32 r.forwarderCore)),
    ("ssl_cert_file", t.scalar r.sslCertFile), ("domain_servers", t.scalar r.domainServers),
    ("domain_name", t.scalar r.domainName), ("license_servers", t.scalar r.licenseServers),
    ("local_broker", t.scalar r.localBroker), ("logger_servers", t.scalar r.loggerServers),
    ("app_name", t.scalar r.appName), ("app_version", t.scalar r.appVersion),
    ("repository_connect_pt", t.scalar r.repositoryConnectPt),
    ("md_connect_pt", t.scalar r.mdConnectPt), ("md_connect_pt_agg", t.scalar r.mdConnectPtAgg),
    ("use_aggregated_md", t.scalar (t.bool r.useAggregatedMd)),
    ("ih_connect_pt", t.scalar r.ihConnectPt), ("ts_connect_pt", t.scalar r.tsConnectPt),
    ("pnl_connect_pt", t.scalar r.pnlConnectPt)]

def writeGlobal (g : GlobalConfig) : N := t.map
  [("environment", t.scalar g.environment), ("log_level", t.scalar g.logLevel),
    ("cpu_affinity", t.scalar (t.bool g.cpuAffinity)), ("log_file_path", t.scalar g.logFilePath)]

def writeThreading (x : ThreadingConfig) : N := t.map
  [("network_core", t.scalar (t.uint32 x.networkCore)),
    ("parser_cores", t.sequence (x.parserCores.map fun core => t.scalar (t.uint32 core))),
    ("storage_core", t.scalar (t.uint32 x.storageCore)),
    ("pub_core", t.scalar (t.uint32 x.pubCore)),
    ("telemetry_core", t.scalar (t.uint32 x.telemetryCore))]

def writeTelemetry (x : TelemetryConfig) : N := t.map
  [("prometheus_enabled", t.scalar (t.bool x.prometheusEnabled)),
    ("listen_port", t.scalar (t.uint16 x.listenPort)),
    ("report_interval_ms", t.scalar (t.uint32 x.reportIntervalMs))]

def writePub (p : PubConfig) : N := t.map
  [("tcp_endpoint", t.scalar p.tcpEndpoint), ("ipc_endpoint", t.scalar p.ipcEndpoint)]

/-- `throttle` is the node under `mtw_throttle_sec`. -/
def writeDolphinDB (throttle : N) (d : DolphinDBConfig) : N := t.map
  [("host", t.scalar d.host), ("port", t.scalar (t.uint16 d.port)), ("user", t.scalar d.user),
    ("password", t.scalar d.password), ("buffer_size", t.scalar (t.uint32 d.bufferSize)),
    ("flush_interval_ms", t.scalar (t.uint32 d.flushIntervalMs)),
    ("mtw_batch_size", t.scalar (t.int d.mtwBatchSize)),
    ("mtw_throttle_sec", throttle),
    ("mtw_thread_count", t.scalar (t.int d.mtwThreadCount)),
    ("auto_init_schema", t.scalar (t.bool d.autoInitSchema)),
    ("health_check_interval_ms", t.scalar (t.uint32 d.healthCheckIntervalMs)),
    ("dfs_db_path", t.scalar d.dfsDbPath), ("hash_buckets", t.scalar (t.int d.hashBuckets)),
    ("partition_granularity", t.scalar d.partitionGranularity)]

def writeMmap (m : MmapConfig) : N := t.map
  [("output_path", t.scalar m.outputPath),
    ("sync_interval_records", t.scalar (t.uint32 m.syncIntervalRecords))]

def writeCsv (x : CsvConfig) : N := t.map [("output_path", t.scalar x.outputPath)]

def writeStorage (throttle : N) (s : StorageConfig) : N := t.map
  [("use_engine", t.scalar s.useEngine), ("persist_to_disk", t.scalar (t.bool s.persistToDisk)),
    ("dolphindb", writeDolphinDB t throttle s.dolphindb), ("mmap", writeMmap t s.mmap),
    ("csv", writeCsv t s.csv)]

/-- A document with every field of the configuration. -/
def write (throttle : N) (cfg : RootConfig) : N := t.map
  [("global", writeGlobal t cfg.global), ("threading_matrix", writeThreading t cfg.threadingMatrix),
    ("telemetry", writeTelemetry t cfg.telemetry), ("pub", writePub t cfg.pub),
    ("storage", writeStorage t throttle cfg.storage), ("rithmic", writeRithmic t cfg.rithmic),
    ("exchanges", t.sequence (cfg.exchanges.map (writeExchange t)))]

end

/-! ### Reading it back -/

theorem accepted_symbol_iff (s : SymbolConfig) :
    s.root.accepted = true ↔
      s.name.utf8ByteSize ≤ 11 ∧ s.depthLevel.toNat ≤ kMaxOrderbookLevels := by
  rw [Sqc.SymbolConfig.accepted, Bool.and_eq_true, decide_eq_true_iff, decide_eq_true_iff]
  rfl

theorem accepted_iff (cfg : RootConfig) :
    cfg.root.accepted = true ↔
      ∀ ex ∈ cfg.exchanges, ∀ ch ∈ ex.channels, ∀ s ∈ ch.symbols, s.root.accepted = true := by
  simp [Sqc.RootConfig.accepted, RootConfig.root, ExchangeConfig.root, ChannelConfig.root]

section
variable {N E : Type} {y : Yaml N E} (t : Texts y)

theorem parseGlobal_write (g : GlobalConfig) : parseGlobal y (writeGlobal t g) = .ok g := by
  simp [parseGlobal, writeGlobal, List.lookup_cons, pure, Except.pure]

theorem parseThreading_write (x : ThreadingConfig) :
    parseThreading y (writeThreading t x) = .ok x := by
  have hitems : y.itemsAt y.uint32 (writeThreading t x) "parser_cores" [3, 4] =
      .ok x.parserCores :=
    (t.itemsAt_map (by simp [List.lookup_cons]) _).trans
      (mapM_map_eq_ok fun core _ => t.uint32_text core)
  rw [parseThreading, hitems]
  simp [writeThreading, List.lookup_cons, pure, Except.pure]

theorem parseTelemetry_write (x : TelemetryConfig) :
    parseTelemetry y (writeTelemetry t x) = .ok x := by
  simp [parseTelemetry, writeTelemetry, List.lookup_cons, pure, Except.pure]

theorem parsePub_write (p : PubConfig) : parsePub y (writePub t p) = .ok p := by
  simp [parsePub, writePub, List.lookup_cons, pure, Except.pure]

theorem parseDolphinDB_write {throttle : N} {d : DolphinDBConfig}
    (h : y.float throttle = .ok d.mtwThrottleSec) :
    parseDolphinDB y (writeDolphinDB t throttle d) = .ok d := by
  simp [parseDolphinDB, writeDolphinDB, List.lookup_cons, h, pure, Except.pure]

theorem parseMmap_write (m : MmapConfig) : parseMmap y (writeMmap t m) = .ok m := by
  simp [parseMmap, writeMmap, List.lookup_cons, pure, Except.pure]

theorem parseCsv_write (x : CsvConfig) : parseCsv y (writeCsv t x) = .ok x := by
  simp [parseCsv, writeCsv, pure, Except.pure]

theorem parseStorage_write {throttle : N} {s : StorageConfig}
    (h : y.float throttle = .ok s.dolphindb.mtwThrottleSec) :
    parseStorage y (writeStorage t throttle s) = .ok s := by
  simp [parseStorage, writeStorage, List.lookup_cons, parseDolphinDB_write t h, parseMmap_write,
    parseCsv_write, pure, Except.pure]

theorem parseRithmicConfig_write (r : RithmicConfig) :
    parseRithmicConfig y (writeRithmic t r) = .ok r := by
  simp [parseRithmicConfig, writeRithmic, List.lookup_cons, pure, Except.pure]

theorem parseSymbol_write {s : SymbolConfig} (h : s.root.accepted = true) :
    parseSymbol y (writeSymbol t s) = .ok s := by
  rw [accepted_symbol_iff] at h
  have hname : ¬s.name.utf8ByteSize > 11 := Nat.not_lt.mpr h.1
  have hdepth : parseSymbol.checkDepth y s.name (t.scalar (t.uint32 s.depthLevel)) =
      .ok s.depthLevel := by
    rw [parseSymbol.checkDepth, t.uint32_text, ok_bind, if_neg (Nat.not_lt.mpr h.2)]
    rfl
  simp [parseSymbol, writeSymbol, List.lookup_cons, hname, hdepth, pure, Except.pure]

theorem parseChannel_write {ch : ChannelConfig}
    (h : ∀ s ∈ ch.symbols, s.root.accepted = true) :
    parseChannel y (writeChannel t ch) = .ok ch := by
  have hsymbols : y.itemsAt (parseSymbol y) (writeChannel t ch) "symbols" [] = .ok ch.symbols :=
    (t.itemsAt_map (by simp [List.lookup_cons]) _).trans
      (mapM_map_eq_ok fun s hs => parseSymbol_write t (h s hs))
  rw [parseChannel, hsymbols]
  simp [writeChannel, pure, Except.pure]

theorem parseExchange_write {ex : ExchangeConfig}
    (h : ∀ ch ∈ ex.channels, ∀ s ∈ ch.symbols, s.root.accepted = true) :
    parseExchange y (writeExchange t ex) = .ok ex := by
  have hchannels : y.itemsAt (parseChannel y) (writeExchange t ex) "channels" [] =
      .ok ex.channels :=
    (t.itemsAt_map (by simp [List.lookup_cons]) _).trans
      (mapM_map_eq_ok fun ch hch => parseChannel_write t (h ch hch))
  rw [parseExchange]
  simp only [hchannels]
  simp [writeExchange, List.lookup_cons, pure, Except.pure]

theorem load_write {throttle : N} {cfg : RootConfig} (h : cfg.root.accepted = true)
    (hfloat : y.float throttle = .ok cfg.storage.dolphindb.mtwThrottleSec) :
    load y (write t throttle cfg) = .ok cfg := by
  rw [accepted_iff] at h
  have hexchanges : y.itemsAt (parseExchange y) (write t throttle cfg) "exchanges" [] =
      .ok cfg.exchanges :=
    (t.itemsAt_map (by simp [List.lookup_cons]) _).trans
      (mapM_map_eq_ok fun ex hex => parseExchange_write t (h ex hex))
  have hglobal : y.optional (parseGlobal y) (write t throttle cfg) "global" {} = .ok cfg.global :=
    (t.optional_map_of_lookup (by simp) _).trans (parseGlobal_write t _)
  have hthreading : y.optional (parseThreading y) (write t throttle cfg) "threading_matrix" {} =
      .ok cfg.threadingMatrix :=
    (t.optional_map_of_lookup (by simp [List.lookup_cons]) _).trans (parseThreading_write t _)
  have htelemetry : y.optional (parseTelemetry y) (write t throttle cfg) "telemetry" {} =
      .ok cfg.telemetry :=
    (t.optional_map_of_lookup (by simp [List.lookup_cons]) _).trans (parseTelemetry_write t _)
  have hpub : y.optional (parsePub y) (write t throttle cfg) "pub" {} = .ok cfg.pub :=
    (t.optional_map_of_lookup (by simp [List.lookup_cons]) _).trans (parsePub_write t _)
  have hstorage : y.optional (parseStorage y) (write t throttle cfg) "storage" {} =
      .ok cfg.storage :=
    (t.optional_map_of_lookup (by simp [List.lookup_cons]) _).trans (parseStorage_write t hfloat)
  have hrithmic : y.optional (parseRithmicConfig y) (write t throttle cfg) "rithmic" {} =
      .ok cfg.rithmic :=
    (t.optional_map_of_lookup (by simp [List.lookup_cons]) _).trans (parseRithmicConfig_write t _)
  simp only [load, hglobal, hthreading, htelemetry, hpub, hstorage, hrithmic, hexchanges, ok_bind]
  rfl

end

/-! ## What the loader lets through -/

section
variable {N E : Type} {y : Yaml N E} {node : N}

theorem accepted_of_parseSymbol {s : SymbolConfig} (h : parseSymbol y node = .ok s) :
    s.root.accepted = true := by
  rw [accepted_symbol_iff]
  obtain ⟨name, -, h⟩ := bind_eq_ok.mp h
  dsimp only at h
  split at h
  next => cases h
  next hname =>
    obtain ⟨enabled, -, h⟩ := bind_eq_ok.mp h
    obtain ⟨depthLevel, hdepth, h⟩ := bind_eq_ok.mp h
    obtain ⟨recordTick, -, h⟩ := bind_eq_ok.mp h
    obtain ⟨persistToDisk, -, h⟩ := bind_eq_ok.mp h
    cases h
    refine ⟨Nat.not_lt.mp hname,
      of_optional (P := fun d => d.toNat ≤ kMaxOrderbookLevels) (fun {v x} hx => ?_) ?_ hdepth⟩
    · obtain ⟨d, -, hx⟩ := bind_eq_ok.mp hx
      split at hx
      next => cases hx
      next hle =>
        cases hx
        exact Nat.not_lt.mp hle
    · decide

theorem accepted_of_parseChannel {ch : ChannelConfig} (h : parseChannel y node = .ok ch) :
    ∀ s ∈ ch.symbols, s.root.accepted = true := by
  obtain ⟨type, -, h⟩ := bind_eq_ok.mp h
  obtain ⟨symbols, hsymbols, h⟩ := bind_eq_ok.mp h
  cases h
  exact forall_of_itemsAt accepted_of_parseSymbol (List.forall_mem_nil _) hsymbols

theorem accepted_of_parseExchange {ex : ExchangeConfig} (h : parseExchange y node = .ok ex) :
    ∀ ch ∈ ex.channels, ∀ s ∈ ch.symbols, s.root.accepted = true := by
  obtain ⟨name, -, h⟩ := bind_eq_ok.mp h
  obtain ⟨enabled, -, h⟩ := bind_eq_ok.mp h
  obtain ⟨channels, hchannels, h⟩ := bind_eq_ok.mp h
  cases h
  exact forall_of_itemsAt accepted_of_parseChannel (List.forall_mem_nil _) hchannels

theorem accepted_of_load {cfg : RootConfig} (h : load y node = .ok cfg) :
    cfg.root.accepted = true := by
  rw [accepted_iff]
  obtain ⟨global, -, h⟩ := bind_eq_ok.mp h
  obtain ⟨threadingMatrix, -, h⟩ := bind_eq_ok.mp h
  obtain ⟨telemetry, -, h⟩ := bind_eq_ok.mp h
  obtain ⟨pub, -, h⟩ := bind_eq_ok.mp h
  obtain ⟨storage, -, h⟩ := bind_eq_ok.mp h
  obtain ⟨rithmic, -, h⟩ := bind_eq_ok.mp h
  obtain ⟨exchanges, hexchanges, h⟩ := bind_eq_ok.mp h
  cases h
  exact forall_of_itemsAt accepted_of_parseExchange (List.forall_mem_nil _) hexchanges

end

section
variable {N E : Type} {y : Yaml N E} {node : N}

/-- `mtw_throttle_sec` is what some node is converted to, or stays. -/
theorem readable_of_parseDolphinDB {d : DolphinDBConfig}
    (hdefault : y.Readable ({} : DolphinDBConfig).mtwThrottleSec)
    (h : parseDolphinDB y node = .ok d) : y.Readable d.mtwThrottleSec := by
  obtain ⟨host, -, h⟩ := bind_eq_ok.mp h
  obtain ⟨port, -, h⟩ := bind_eq_ok.mp h
  obtain ⟨user, -, h⟩ := bind_eq_ok.mp h
  obtain ⟨password, -, h⟩ := bind_eq_ok.mp h
  obtain ⟨bufferSize, -, h⟩ := bind_eq_ok.mp h
  obtain ⟨flushIntervalMs, -, h⟩ := bind_eq_ok.mp h
  obtain ⟨mtwBatchSize, -, h⟩ := bind_eq_ok.mp h
  obtain ⟨mtwThrottleSec, hthrottle, h⟩ := bind_eq_ok.mp h
  obtain ⟨mtwThreadCount, -, h⟩ := bind_eq_ok.mp h
  obtain ⟨autoInitSchema, -, h⟩ := bind_eq_ok.mp h
  obtain ⟨healthCheckIntervalMs, -, h⟩ := bind_eq_ok.mp h
  obtain ⟨dfsDbPath, -, h⟩ := bind_eq_ok.mp h
  obtain ⟨hashBuckets, -, h⟩ := bind_eq_ok.mp h
  obtain ⟨partitionGranularity, -, h⟩ := bind_eq_ok.mp h
  cases h
  exact of_optional (P := y.Readable) (fun {v x} hx => ⟨v, hx⟩) hdefault hthrottle

theorem readable_of_parseStorage {s : StorageConfig}
    (hdefault : y.Readable ({} : DolphinDBConfig).mtwThrottleSec)
    (h : parseStorage y node = .ok s) : y.Readable s.dolphindb.mtwThrottleSec := by
  obtain ⟨useEngine, -, h⟩ := bind_eq_ok.mp h
  obtain ⟨persistToDisk, -, h⟩ := bind_eq_ok.mp h
  obtain ⟨dolphindb, hdolphindb, h⟩ := bind_eq_ok.mp h
  obtain ⟨mmap, -, h⟩ := bind_eq_ok.mp h
  obtain ⟨csv, -, h⟩ := bind_eq_ok.mp h
  cases h
  exact of_optional (P := fun d => y.Readable d.mtwThrottleSec)
    (readable_of_parseDolphinDB hdefault) hdefault hdolphindb

theorem readable_of_load {cfg : RootConfig}
    (hdefault : y.Readable ({} : DolphinDBConfig).mtwThrottleSec) (h : load y node = .ok cfg) :
    y.Readable cfg.storage.dolphindb.mtwThrottleSec := by
  obtain ⟨global, -, h⟩ := bind_eq_ok.mp h
  obtain ⟨threadingMatrix, -, h⟩ := bind_eq_ok.mp h
  obtain ⟨telemetry, -, h⟩ := bind_eq_ok.mp h
  obtain ⟨pub, -, h⟩ := bind_eq_ok.mp h
  obtain ⟨storage, hstorage, h⟩ := bind_eq_ok.mp h
  obtain ⟨rithmic, -, h⟩ := bind_eq_ok.mp h
  obtain ⟨exchanges, -, h⟩ := bind_eq_ok.mp h
  cases h
  exact of_optional (P := fun s => y.Readable s.dolphindb.mtwThrottleSec)
    (readable_of_parseStorage hdefault) hdefault hstorage

end

/-- The loader gives exactly the configurations that are accepted and have a readable float, and
each from the document that names all its fields, whichever text the float has there. -/
theorem load_ok_iff {N E : Type} (y : Yaml N E) (t : Texts y) (cfg : RootConfig) :
    ((∃ node, load y node = .ok cfg) ↔
      cfg.root.accepted = true ∧ y.Readable cfg.storage.dolphindb.mtwThrottleSec) ∧
    ∀ throttle, y.float throttle = .ok cfg.storage.dolphindb.mtwThrottleSec →
      cfg.root.accepted = true → load y (write t throttle cfg) = .ok cfg := by
  refine ⟨⟨fun ⟨_, h⟩ => ⟨accepted_of_load h, readable_of_load t.float_default h⟩, ?_⟩,
    fun _ hfloat h => load_write t h hfloat⟩
  rintro ⟨h, throttle, hfloat⟩
  exact ⟨write t throttle cfg, load_write t h hfloat⟩

/-! ### Trees with decimal texts -/

/-- The words for a truth value, in small or large letters or with one large letter in front. -/
def scanBool (text : List Char) : Option Bool :=
  let lower := text.map Char.toLower
  if text = lower ∨ text = text.map Char.toUpper ∨ text.tail = lower.tail then
    if lower ∈ ["y", "yes", "true", "on"].map String.toList then some true
    else if lower ∈ ["n", "no", "false", "off"].map String.toList then some false
    else none
  else none

/-- A number in decimal. yaml-cpp also takes hexadecimal and octal ones. -/
def scanNat (text : List Char) : Option Nat :=
  if text ≠ [] ∧ text.all Char.isDigit then some (Nat.ofDigitChars 10 text 0) else none

def scanInt (text : List Char) : Option Int :=
  if text.head? = some '-' then (scanNat text.tail).map fun n : Nat => -(n : Int)
  else (scanNat text).map Int.ofNat

def scanFloat (text : List Char) : Option Single :=
  if text ∈ [".nan", ".NaN", ".NAN"].map String.toList then some 0x7fc00000
  else if text ∈ [".inf", ".Inf", ".INF", "+.inf", "+.Inf", "+.INF"].map String.toList then
    some 0x7f800000
  else if text ∈ ["-.inf", "-.Inf", "-.INF"].map String.toList then some 0xff800000
  else (scanDecimal text).bind fun (negative, digits, power) =>
    (nearestBits 23 8 negative (Nat.ofDigitChars 10 digits 0 * 10 ^ power.toNat)
      (10 ^ (-power).toNat)).map UInt32.ofNat

/-- An integer of a type that has these values. -/
def convertInt (least most : Int) (text : String) : Option Int :=
  (scanInt text.toList).filter fun n => least ≤ n ∧ n ≤ most

def treeYaml : Yaml Node Node.Error where
  toAccess := Node.access .yaml
  bool := Node.as .yaml fun text => scanBool text.toList
  uint32 := Node.as .yaml fun text => (convertInt 0 (2 ^ 32 - 1) text).map fun n => .ofNat n.toNat
  uint16 := Node.as .yaml fun text => (convertInt 0 (2 ^ 16 - 1) text).map fun n => .ofNat n.toNat
  int := Node.as .yaml fun text => (convertInt (-2 ^ 31) (2 ^ 31 - 1) text).map Int32.ofInt
  float := Node.as .yaml fun text => scanFloat text.toList

theorem scanNat_toDigits (n : Nat) : scanNat (Nat.toDigits 10 n) = some n := by
  have hdigits : (Nat.toDigits 10 n).all Char.isDigit = true :=
    List.all_eq_true.mpr fun c hc => Nat.isDigit_of_mem_toDigits (by decide) (by decide) hc
  rw [scanNat, if_pos ⟨Nat.toDigits_ne_nil, hdigits⟩, Nat.ofDigitChars_ten_toDigits]

/-- The digits of an integer behind its sign. -/
def intText (n : Int) : List Char :=
  (if n < 0 then ['-'] else []) ++ Nat.toDigits 10 n.natAbs

theorem scanInt_intText (n : Int) : scanInt (intText n) = some n := by
  rw [intText]
  split
  next hneg =>
    rw [List.singleton_append, scanInt, if_pos List.head?_cons, List.tail_cons,
      scanNat_toDigits, Option.map_some]
    exact congrArg some (by omega)
  next hneg =>
    have hhead : (Nat.toDigits 10 n.natAbs).head? ≠ some '-' := by
      intro hhead
      have hdigit := Nat.isDigit_of_mem_toDigits (by decide) (by decide)
        (List.mem_of_head? hhead)
      exact absurd hdigit (by decide)
    rw [List.nil_append, scanInt, if_neg hhead, scanNat_toDigits, Option.map_some]
    exact congrArg some (Int.natAbs_of_nonneg (Int.not_lt.mp hneg))

theorem as_intText {α : Type} {least most : Int} {ofInt : Int → α} {n : Int} {x : α}
    (hleast : least ≤ n) (hmost : n ≤ most) (hx : ofInt n = x) :
    Node.as (Exception.yaml : Node.Error → _) (fun text => (convertInt least most text).map ofInt)
      (.scalar (String.ofList (intText n))) = .ok x := by
  refine Node.as_scalar _ ?_
  rw [convertInt, String.toList_ofList, scanInt_intText, Option.filter_some,
    if_pos (decide_eq_true ⟨hleast, hmost⟩), Option.map_some, hx]

def treeTexts : Texts treeYaml where
  toDocuments := Node.documents Exception.yaml
  bool x := if x then "true" else "false"
  uint32 x := String.ofList (intText x.toNat)
  uint16 x := String.ofList (intText x.toNat)
  int x := String.ofList (intText x.toInt)
  bool_text x := by cases x <;> rfl
  uint32_text x := as_intText (by omega) (by have := x.toNat_lt; omega) UInt32.ofNat_toNat
  uint16_text x := as_intText (by omega) (by have := x.toNat_lt; omega) UInt16.ofNat_toNat
  int_text x := as_intText x.le_toInt (Int.le_sub_one_of_lt x.toInt_lt) (Int32.ofInt_toInt x)
  float_default := ⟨.scalar "1.0", rfl⟩

/-- One future of the CME, and rows that are sent after a tenth of a second. -/
def gold : RootConfig where
  storage := { dolphindb := { mtwThrottleSec := 0x3dcccccd } }
  exchanges :=
    [{ name := "CME", enabled := true, channels := [{ type := "futures", symbols := [
      { name := "GCQ6", depthLevel := 10 }] }] }]

theorem gold_loaded :
    gold.root.accepted = true ∧ treeYaml.float (.scalar "0.1") = .ok 0x3dcccccd ∧
      load treeYaml (write treeTexts (.scalar "0.1") gold) = .ok gold := by
  have hfloat : treeYaml.float (.scalar "0.1") = .ok 0x3dcccccd := by rfl
  have haccepted : gold.root.accepted = true := by decide +kernel
  exact ⟨haccepted, hfloat, (load_ok_iff treeYaml treeTexts gold).2 _ hfloat haccepted⟩

end Config

end Sqc
