import ToolkitCpp.GuardedRuns
import ToolkitCpp.EvictingQueue
import ToolkitCpp.Segments
import ToolkitCpp.Machine
import ToolkitCpp.Text
import ToolkitCpp.Numerals
import ToolkitCpp.PipeFrame
import ToolkitCpp.PipeListen
import ToolkitCpp.PipeDelivery
import ToolkitCpp.PipeAnswer
import ToolkitCpp.PipeCommand
import ToolkitCpp.TransportClient
import ToolkitCpp.TransportServer
import ToolkitCpp.TransportQueues
import ToolkitCpp.JsonValue
import ToolkitCpp.Strings
import ToolkitCpp.RmqPath
import ToolkitCpp.WebSocketAnswer
import ToolkitCpp.JsonFlatten
import ToolkitCpp.JsonPath
import ToolkitCpp.JsonLeaves
import ToolkitCpp.ConfigMonitor
import ToolkitCpp.ConfigSave
import ToolkitCpp.ConfigValidator
import ToolkitCpp.ConfigPaths
import ToolkitCpp.ConfigPresence
import ToolkitCpp.ConfigWalk
import ToolkitCpp.ConfigBounds
import ToolkitCpp.ConfigSpec
import ToolkitCpp.ConfigAdmits
import ToolkitCpp.ConfigStable
import ToolkitCpp.ConfigConform
import ToolkitCpp.ConfigMaps
import ToolkitCpp.ConfigFixed
import ToolkitCpp.ConfigSound
import ToolkitCpp.Clock
import ToolkitCpp.WatchDogWorker
import ToolkitCpp.WatchDogDelivery
import ToolkitCpp.ComPort
import ToolkitCpp.SystemdClient
import ToolkitCpp.ComPortAlive
import ToolkitCpp.Patterns
import ToolkitCpp.TransportStatus
import ToolkitCpp.WorkIntervals
import ToolkitCpp.DigestAuth
import ToolkitCpp.PipeDescriptors
import ToolkitCpp.ControlPoints
import ToolkitCpp.PipeEmptyMessages
import ToolkitCpp.PipeReconnect
import ToolkitCpp.RmqRender
import ToolkitCpp.WebSocketMailbox
import ToolkitCpp.WorkIntervalsChecks
import ToolkitCpp.BrokerDescription
import ToolkitCpp.JsonPathLaws
import ToolkitCpp.JsonPatch
import ToolkitCpp.UnfamiliarFields
import ToolkitCpp.SplitJoin
import ToolkitCpp.LogRetention
import ToolkitCpp.LogRotation
import ToolkitCpp.PipeSizes
import ToolkitCpp.ModMonClient
import ToolkitCpp.WebSocketPath
import ToolkitCpp.ConfigSuffix
import ToolkitCpp.Calendar
import ToolkitCpp.TimeText
