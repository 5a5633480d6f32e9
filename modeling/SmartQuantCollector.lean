import SmartQuantCollector.Lib.Machine
import SmartQuantCollector.Lib.Ring
import SmartQuantCollector.Lib.RingQueue
import SmartQuantCollector.Lib.SpinLock
import SmartQuantCollector.Lib.Subsequence
import SmartQuantCollector.Lib.RoundRobin
import SmartQuantCollector.Lib.SlotPool
import SmartQuantCollector.Lib.CalendarDays
import SmartQuantCollector.Lib.CappedScan
import SmartQuantCollector.Lib.JsonTree
import SmartQuantCollector.Common.MarketEvent
import SmartQuantCollector.Common.SpscQueue
import SmartQuantCollector.Pubsub.DispatchCycle
import SmartQuantCollector.Pubsub.PubWorker
import SmartQuantCollector.Pubsub.PublicationAccounting
import SmartQuantCollector.Pubsub.PublicationOrder
import SmartQuantCollector.Exchange.ExchangeAdapter
import SmartQuantCollector.Exchange.ShardQueue
import SmartQuantCollector.Exchange.ShardQueueDelivery
import SmartQuantCollector.Exchange.Crypto.CryptoShutdown
import SmartQuantCollector.Exchange.Rithmic.RithmicQueue
import SmartQuantCollector.Exchange.Rithmic.RithmicQueueInvariant
import SmartQuantCollector.Exchange.Rithmic.RithmicQueueWords
import SmartQuantCollector.Exchange.Rithmic.RithmicQueueDelivery
import SmartQuantCollector.Exchange.Rithmic.RithmicQueueFifo
import SmartQuantCollector.Exchange.Rithmic.GatewayRestart
import SmartQuantCollector.Exchange.Rithmic.ProcessManager
import SmartQuantCollector.Exchange.Rithmic.Supervision
import SmartQuantCollector.Exchange.Rithmic.ProcessManagerShutdown
import SmartQuantCollector.Exchange.Rithmic.ProcessManagerSignals
import SmartQuantCollector.Lib.WindowCount
import SmartQuantCollector.Exchange.Rithmic.RestartLimit
import SmartQuantCollector.WorkerLoops
import SmartQuantCollector.Config
import SmartQuantCollector.Exchange.ChannelMapping
import SmartQuantCollector.Storage.ChannelRegistry
import SmartQuantCollector.Storage.TimestampUtil
import SmartQuantCollector.Storage.Client.TableRows
import SmartQuantCollector.Lib.Fallible
import SmartQuantCollector.Lib.Checked
import SmartQuantCollector.Storage.Client.DolphinDBClient
import SmartQuantCollector.Startup
import SmartQuantCollector.Lib.FallibleLoop
import SmartQuantCollector.Exchange.Pipelines
import SmartQuantCollector.Exchange.Crypto.CryptoPipeline
import SmartQuantCollector.Exchange.Crypto.PublishOrder
import SmartQuantCollector.Exchange.Rithmic.Rendezvous
import SmartQuantCollector.Storage.Backend.DolphinDBBackend
import SmartQuantCollector.Lib.Ledger
import SmartQuantCollector.Storage.Backend.DolphinDBLedger
import SmartQuantCollector.Storage.Backend.DolphinDBOnce
import SmartQuantCollector.Storage.Backend.DolphinDBDelivery
import SmartQuantCollector.Lib.CountedArray
import SmartQuantCollector.RithmicGateway.OrderBook
import SmartQuantCollector.RithmicGateway.OrderBookInvariant
import SmartQuantCollector.RithmicGateway.Callbacks
import SmartQuantCollector.RithmicGateway.BatchCommit
import SmartQuantCollector.RithmicGateway.ImageProvenance
import SmartQuantCollector.Exchange.Rithmic.HeartbeatAge
import SmartQuantCollector.Lib.LittleEndian
import SmartQuantCollector.Lib.Framing
import SmartQuantCollector.Storage.RecordLayout
import SmartQuantCollector.Storage.Engine.MmapEngine
import SmartQuantCollector.Storage.Engine.MmapRestart
import SmartQuantCollector.Storage.Backend.MmapOrderbook
import SmartQuantCollector.Storage.Backend.FallbackDecoding
import SmartQuantCollector.Storage.Backend.InsertRefinement
import SmartQuantCollector.Storage.Backend.InsertWithFallback
import SmartQuantCollector.Lib.Csv
import SmartQuantCollector.Lib.Gregorian
import SmartQuantCollector.Storage.Engine.CsvDate
import SmartQuantCollector.Storage.Engine.CsvWriter
import SmartQuantCollector.Storage.Engine.CsvFiles
import SmartQuantCollector.Storage.Engine.CsvHeader
import SmartQuantCollector.Scripts.ImportTradeData
import SmartQuantCollector.Scripts.CsvRoundTrip
import SmartQuantCollector.Lib.KeyedStores
import SmartQuantCollector.Storage.Engine.MmapTree
import SmartQuantCollector.Storage.Engine.MmapAppend
import SmartQuantCollector.Storage.Engine.MmapLog
import SmartQuantCollector.Storage.Backend.DolphinDBNoFailure
import SmartQuantCollector.Storage.Backend.CsvBackend
import SmartQuantCollector.Storage.Backend.MmapChannels
import SmartQuantCollector.Storage.BackendAgreement
import SmartQuantCollector.Lib.Utf8
import SmartQuantCollector.Exchange.RegistrySoundness
import SmartQuantCollector.Lib.SeqLock
import SmartQuantCollector.Common.TelemetrySlot
import SmartQuantCollector.RithmicGateway.PriceMap
import SmartQuantCollector.RithmicGateway.FullBook
import SmartQuantCollector.RithmicGateway.MyCallbacks
import SmartQuantCollector.RithmicGateway.BookSlots
import SmartQuantCollector.RithmicGateway.PublishedSymbols
import SmartQuantCollector.Exchange.Crypto.SymbolChannel
import SmartQuantCollector.Exchange.Crypto.SubscriptionTimers
import SmartQuantCollector.Exchange.Crypto.ClientLifetime
import SmartQuantCollector.Exchange.Crypto.ReconnectBackoff
import SmartQuantCollector.Pubsub.DrainAll
import SmartQuantCollector.Pubsub.ZmqBufferPool
import SmartQuantCollector.Storage.UtcDays
import SmartQuantCollector.Storage.TradeDateCache
import SmartQuantCollector.Storage.Client.DolphinDBSchema
import SmartQuantCollector.Storage.Engine.CsvDateOrder
import SmartQuantCollector.Storage.Partitions
import SmartQuantCollector.Storage.Backend.TickBuffer
import SmartQuantCollector.Storage.Engine.MmapFileName
import SmartQuantCollector.Exchange.ReservedIds
import SmartQuantCollector.Common.StringUtils
import SmartQuantCollector.Exchange.Crypto.Parsers
import SmartQuantCollector.Exchange.Crypto.TradeBatches
import SmartQuantCollector.Exchange.Crypto.DepthLevels
import SmartQuantCollector.RithmicGateway.BookCell
import SmartQuantCollector.RithmicGateway.BookLock
import SmartQuantCollector.Exchange.Rithmic.RithmicReceiver
import SmartQuantCollector.Exchange.Rithmic.ForwardOrder
import SmartQuantCollector.Lib.YamlTree
import SmartQuantCollector.Config.Loader
import SmartQuantCollector.Lib.GuardedLog
import SmartQuantCollector.RithmicGateway.RithmicEngine
import SmartQuantCollector.Lib.ByteReader
import SmartQuantCollector.Pubsub.MessageSerializer
import SmartQuantCollector.Pubsub.PayloadBuffers
import SmartQuantCollector.Network.WsClient
