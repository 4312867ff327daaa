import Armore.Proxy.ParsingSafety
import Armore.Proxy.AddressKeys
import Armore.Proxy.HardwareAddress
import Armore.Proxy.Classification
import Armore.Proxy.Translation
import Armore.Proxy.SpinLock
import Armore.Proxy.Tracking
import Armore.Proxy.SplitHorizon
import Armore.Proxy.Resolution
import Armore.Proxy.HandOff
import Armore.Proxy.SendOrder
import Armore.Proxy.SynchronizedOperation
import Armore.Proxy.ActiveClients
import Armore.Proxy.Broadcast
import Armore.Proxy.NdpChecksum
import Armore.Proxy.CaptureSafety
import Armore.Proxy.ExtensionHeaders
import Armore.Proxy.NetmapRings
import Armore.Proxy.NetworkFlow
import Armore.Stats.Training
import Armore.Stats.ObjectTargets
import Armore.Stats.Reference
import Armore.Stats.ResponseTargets
import Armore.Stats.Ratio
import Armore.Stats.Aggregation
import Armore.Stats.PacketLog
import Armore.Stats.Identities
import Armore.Stats.Lifecycle
import Armore.Stats.LogWriter
import Armore.Stats.AnomalyScore
import Armore.Stats.Sampling
import Armore.Stats.ModbusCounter
import Armore.Web.UserTable
import Armore.Web.Authorization
import Armore.Web.LatencyPolls
import Armore.Web.LatencyTable
import Armore.Web.LogViewing
import Armore.Web.LogParsers
import Armore.Web.ColDiffGraph
import Armore.Web.ColGraphConservation
import Armore.Web.CountTree
import Armore.Web.LogDatabaseRuns
import Armore.Web.ConfigConvergence
import Armore.Service.Restarts
import Armore.Filtering.CronFollows
import Armore.Filtering.PolicyMap
import Armore.Filtering.FailedUpdate
import Armore.Filtering.Enforcement
import Armore.Filtering.SavedForm
import Armore.Logging.PolicyTimes
import Armore.Logging.PolicyFunctions
import Armore.Lib.PrefixTree
