import Syswatch.Lib.Machine
import Syswatch.Queue
import Syswatch.QueueHistory
import Syswatch.Cpu
import Syswatch.Deltas
import Syswatch.Disk
import Syswatch.Lib.Sampling
import Syswatch.Network
import Syswatch.Escape
import Syswatch.Events
import Syswatch.EventJson
import Syswatch.ProcNetDev
import Syswatch.NetworkEvent
import Syswatch.Collector
import Syswatch.CollectorGrammar
import Syswatch.CollectorRates
import Syswatch.Output
import Syswatch.OutputDelivery
import Syswatch.Process
import Syswatch.ProcessShutdown
import Syswatch.OutputTriggers
import Syswatch.ProcessBatching
import Syswatch.DeviceListing
import Syswatch.DiskEvent
import Syswatch.FixedEvents
import Syswatch.SelfMetrics
import Syswatch.Config
import Syswatch.ConfigText
import Syswatch.ConfigRoundTrip
import Syswatch.Args
import Syswatch.ConfigRange
import Syswatch.ConfigCheck
import Syswatch.ConfigMetrics
import Syswatch.ConfigStrings
import Syswatch.EventStore
import Syswatch.EventHistory
import Syswatch.EventQuery
import Syswatch.LatestSnapshot
import Syswatch.Timestamp
import Syswatch.Backoff
import Syswatch.OutputMemory
import Syswatch.OutputRefinement
import Syswatch.OutputRetries
import Syswatch.EscapeMemory
import Syswatch.Lib.PyJson
import Syswatch.WebHandler
import Syswatch.BatchBody
import Syswatch.EscapeUtf8
import Syswatch.Lib.JsonUtf8
import Syswatch.ConfigLines
import Syswatch.ConfigComments
import Syswatch.ConfigBlanks
import Syswatch.CpuUsage
import Syswatch.Lib.Scanf
import Syswatch.ProcStat
import Syswatch.CounterFields
import Syswatch.DeviceJoin
import Syswatch.StatLocals
import Syswatch.DeviceTables
import Syswatch.DiskPartitions
import Syswatch.MeminfoOrder
import Syswatch.ProcessHistory
import Syswatch.Lib.Selection
import Syswatch.ProcessRanking
import Syswatch.ParseUll
import Syswatch.ProcessStatText
import Syswatch.CoreNumbers
import Syswatch.BatchInvariant
import Syswatch.ResponseBuffer
import Syswatch.Lib.Binary64
import Syswatch.Lib.PyFloat
import Syswatch.Lib.PyDumps
import Syswatch.Lib.PyTexts
import Syswatch.ServedEvents
import Syswatch.ProcessProgress
import Syswatch.EffectiveSettings
import Syswatch.Lib.Retransmission
import Syswatch.PostedEvents
import Syswatch.Startup
import Syswatch.StreamedEvents
import Syswatch.Uplink
import Syswatch.Lib.PyBytes
import Syswatch.EventValues
import Syswatch.QueuedTexts
import Syswatch.ProcessCollector
import Syswatch.Dashboard
import Syswatch.ProcFiles
import Syswatch.HostEvents
