import OtaServer.Lib.Bytes
import OtaServer.Db.Redis
import OtaServer.Lib.Run
import OtaServer.Json
import OtaServer.Ota.Hash
import OtaServer.Ota.Notifier
import OtaServer.Ota.Device
import OtaServer.Ota.Agreement
import OtaServer.Http.Message
import OtaServer.Db.RedisUtil
import OtaServer.Ota.HttpManager
import OtaServer.Ota.CommandDispatcher
import OtaServer.Ota.Callback
import OtaServer.Ota.CommandWorkers
import OtaServer.Mqtt.Client
import OtaServer.Ota.Consumer
import OtaServer.Http.Http11Parser
import OtaServer.Http.Parser
import OtaServer.Http.Session
import OtaServer.Http.Segmentation
import OtaServer.Http.HeaderFields
import OtaServer.Http.Server
import OtaServer.Http.HttpClientParser
import OtaServer.Http.ResponseParser
import OtaServer.Http.Connection
import OtaServer.Http.Chunked
import OtaServer.Lib.RagelRun
import OtaServer.Http.ResponseDump
import OtaServer.Lib.RagelLanguage
import OtaServer.Http.RequestLines
import OtaServer.Http.RequestDump
import OtaServer.ByteArray.Basic
import OtaServer.ByteArray.Layout
import OtaServer.ByteArray.FlatVector
import OtaServer.ByteArray.Scalars
import OtaServer.ByteArray.Strings
import OtaServer.ByteArray.Defined
import OtaServer.Lib.Threads
import OtaServer.Scheduler.Basic
import OtaServer.Scheduler.Tasks
import OtaServer.Scheduler.Steps
import OtaServer.Scheduler.FiberLife
import OtaServer.Scheduler.Fibers
import OtaServer.Scheduler.WakeUp
import OtaServer.Scheduler.Stop
import OtaServer.IOManager.Events
import OtaServer.IOManager.EventsInv
import OtaServer.IOManager.Stale
import OtaServer.IOManager.Resize
import OtaServer.Lib.OrdSet
import OtaServer.Timer.Manager
import OtaServer.Timer.Order
import OtaServer.Timer.Deadlines
import OtaServer.Timer.Front
import OtaServer.Fd.Manager
import OtaServer.Hook.DoIo
import OtaServer.Fd.Race
import OtaServer.Hook.Flags
import OtaServer.Db.RedisPool
import OtaServer.Db.RedisProbe
import OtaServer.Db.FoxRedis
import OtaServer.Db.FoxThreadPool
import OtaServer.Config.Load
import OtaServer.Config.Lookup
import OtaServer.Http.ConnectionPool
import OtaServer.Http.PoolLimits
import OtaServer.Ota.MqttDevices
import OtaServer.Http.Announce
import OtaServer.Http.ContentLength
import OtaServer.Ota.FileDownload
import OtaServer.Ota.StopNotify
import OtaServer.Ota.SendFile
import OtaServer.Mqtt.Listener
import OtaServer.Ota.Handshake
import OtaServer.Timer.Pending
import OtaServer.Scheduler.Bound
import OtaServer.Hook.Sleep
import OtaServer.IOManager.Idle
import OtaServer.Stream.FixSize
import OtaServer.Http.Body
import OtaServer.Http.SizeLine
import OtaServer.Http.Servlet
import OtaServer.Http.Stores
import OtaServer.ByteArray.Buffers
import OtaServer.ByteArray.Positional
import OtaServer.ByteArray.File
import OtaServer.ByteArray.Incomplete
import OtaServer.Address.Basic
import OtaServer.Address.Subnet
import OtaServer.Address.Text
import OtaServer.Address.Lookup
import OtaServer.Lib.Search
import OtaServer.Util.Replace
import OtaServer.Db.ReplyClone
import OtaServer.Http.MethodToken
import OtaServer.Ota.NotifierTimers
import OtaServer.Log.Formatter
import OtaServer.Log.Patterns
import OtaServer.Log.Logger
import OtaServer.Log.Define
import OtaServer.Log.Initer
import OtaServer.Http.DoRequest
import OtaServer.Stream.Transfer
import OtaServer.Hook.Connect
import OtaServer.TcpServer
