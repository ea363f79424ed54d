import Eventing.Transition
import Eventing.KvStore
import Eventing.Delimited
import Eventing.Decimal
import Eventing.ByteOrder
import Eventing.CasMarker
import Eventing.Pipeline
import Eventing.PipelineMarkers
import Eventing.PipelineFilter
import Eventing.PipelineFeedback
import Eventing.Timestamp
import Eventing.TimerJson
import Eventing.Timer
import Eventing.TimerMarker
import Eventing.TimerLists
import Eventing.TimerOnce
import Eventing.TimerFires
import Eventing.TimerRace
import Eventing.TimerIsolation
import Eventing.Deploy
import Eventing.DeployLive
import Eventing.DeployQuit
import Eventing.DeployLock
import Eventing.DeployHolder
import Eventing.RapidJson
import Eventing.Regex
import Eventing.Rewriter
import Eventing.RewriterLines
import Eventing.RegexCalls
import Eventing.RewriterCalls
import Eventing.BackIndex
import Eventing.HttpTables
import Eventing.HttpIndexes
import Eventing.HttpServers
import Eventing.WorkerFeed
import Eventing.MetadataKeys
import Eventing.Utf16
import Eventing.BucketAlias
import Eventing.Utf8
import Eventing.SendUpdate
import Eventing.DeployBlocked
import Eventing.DeploySections
import Eventing.MarkerCodec
import Eventing.TimestampKeys
import Eventing.TimerExpiry
import Eventing.TimerTick
import Eventing.TimerTicker
import Eventing.GoSlice
import Eventing.AssetEdits
import Eventing.AssetLoop
import Eventing.AssetOutcome
import Eventing.Base64
import Eventing.StaticAssets
import Eventing.OrderedMap
import Eventing.Components
import Eventing.MailChannels
import Eventing.Debugger
import Eventing.MailCodec
import Eventing.JsonBytes
import Eventing.JsonText
import Eventing.MessageCodec
import Eventing.HttpResponse
import Eventing.Routing
import Eventing.DebugMessages
import Eventing.LastException
import Eventing.LineReader
import Eventing.ForLoop
import Eventing.N1qlTag
import Eventing.WorkerDispose
import Eventing.FreshNumber
import Eventing.LocalPorts
import Eventing.WorkerTable
import Eventing.WorkerRuns
import Eventing.Fifo
import Eventing.QueueServer
import Eventing.TemplateLiteral
import Eventing.N1qlQuery
import Eventing.JsonWriter
import Eventing.GoJson
import Eventing.AppFile
import Eventing.AppStore
import Eventing.HttpExchange
import Eventing.CondVar
import Eventing.DebuggerWait
import Eventing.MailDelivery
import Eventing.PipelineSettled
import Eventing.MailLoops
import Eventing.EnqueueFlow
import Eventing.DebugCommand
import Eventing.FeedShutdown
import Eventing.DcpStreams
import Eventing.DebugServer
import Eventing.Wtf8
