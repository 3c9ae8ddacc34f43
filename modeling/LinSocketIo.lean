import LinSocketIo.Base.Backlog
import LinSocketIo.Base.Base128
import LinSocketIo.Base.Blocks
import LinSocketIo.Base.Bytes
import LinSocketIo.Base.CInt
import LinSocketIo.Base.Decimal
import LinSocketIo.Base.Framing
import LinSocketIo.Base.Holders
import LinSocketIo.Base.Linearize
import LinSocketIo.Base.Machine
import LinSocketIo.Base.Orbit
import LinSocketIo.Base.OrderedMap
import LinSocketIo.Base.Ownership
import LinSocketIo.Base.Reader
import LinSocketIo.Base.Refines
import LinSocketIo.Base.Separators
import LinSocketIo.Base.Threads
import LinSocketIo.Base.Trace
import LinSocketIo.Base.Wp
import LinSocketIo.Core.BackPressure
import LinSocketIo.Core.Chunking
import LinSocketIo.Core.CloseNotices
import LinSocketIo.Core.CloseRemoval
import LinSocketIo.Core.CloseTheorems
import LinSocketIo.Core.Condition
import LinSocketIo.Core.Connection
import LinSocketIo.Core.ConnectionTable
import LinSocketIo.Core.ConnectionTableTheorems
import LinSocketIo.Core.ConnectionTheorems
import LinSocketIo.Core.Coroutine
import LinSocketIo.Core.CoroutineTheorems
import LinSocketIo.Core.Countdown
import LinSocketIo.Core.CountdownTheorems
import LinSocketIo.Core.Delivery
import LinSocketIo.Core.FallQueues
import LinSocketIo.Core.FreshId
import LinSocketIo.Core.Future
import LinSocketIo.Core.FutureTheorems
import LinSocketIo.Core.FutureWait
import LinSocketIo.Core.FutureWaitTheorems
import LinSocketIo.Core.HandlerLife
import LinSocketIo.Core.Heartbeat
import LinSocketIo.Core.Keepalive
import LinSocketIo.Core.Link
import LinSocketIo.Core.LocalStorage
import LinSocketIo.Core.Manager
import LinSocketIo.Core.ManagerTheorems
import LinSocketIo.Core.NextTimeout
import LinSocketIo.Core.Queue
import LinSocketIo.Core.QueueTheorems
import LinSocketIo.Core.Requests
import LinSocketIo.Core.RpcCall
import LinSocketIo.Core.RpcCallTheorems
import LinSocketIo.Core.Selector
import LinSocketIo.Core.SelectorTheorems
import LinSocketIo.Core.Server
import LinSocketIo.Core.Socket
import LinSocketIo.Core.SocketManager
import LinSocketIo.Core.SocketTheorems
import LinSocketIo.Core.SyncFuture
import LinSocketIo.Core.SyncFutureTheorems
import LinSocketIo.Core.SyncSchedule
import LinSocketIo.Core.TcpConnection
import LinSocketIo.Core.TcpConnectionTheorems
import LinSocketIo.Core.TcpListener
import LinSocketIo.Core.TcpListenerTheorems
import LinSocketIo.Core.TimerTable
import LinSocketIo.Core.TornSend
import LinSocketIo.Core.UdpConnection
import LinSocketIo.Core.UdpConnectionTheorems
import LinSocketIo.Core.UdpListener
import LinSocketIo.Core.UdpListenerTheorems
import LinSocketIo.Core.UdpSocket
import LinSocketIo.Log.LogData
import LinSocketIo.Log.LogDataTheorems
import LinSocketIo.Log.LogFile
import LinSocketIo.Log.LogFileTheorems
import LinSocketIo.Log.LogLine
import LinSocketIo.Log.LogUtil
import LinSocketIo.Log.Logging
import LinSocketIo.Log.LoggingTheorems
import LinSocketIo.Log.Retention
import LinSocketIo.Log.Ring
import LinSocketIo.Log.RingTheorems
import LinSocketIo.Log.RollSize
import LinSocketIo.Utils.Atomic
import LinSocketIo.Utils.BackPatch
import LinSocketIo.Utils.Base64
import LinSocketIo.Utils.Base64Theorems
import LinSocketIo.Utils.BufferArith
import LinSocketIo.Utils.BufferLimit
import LinSocketIo.Utils.ByteBuffer
import LinSocketIo.Utils.ByteBufferTheorems
import LinSocketIo.Utils.Cursor
import LinSocketIo.Utils.CursorTheorems
import LinSocketIo.Utils.JsonStream
import LinSocketIo.Utils.JsonStreamTheorems
import LinSocketIo.Utils.MapDiff
import LinSocketIo.Utils.Md5
import LinSocketIo.Utils.Md5Theorems
import LinSocketIo.Utils.Packet
import LinSocketIo.Utils.PacketCanonical
import LinSocketIo.Utils.PacketTheorems
import LinSocketIo.Utils.Pb
import LinSocketIo.Utils.PbFields
import LinSocketIo.Utils.Peek
import LinSocketIo.Utils.RcVar
import LinSocketIo.Utils.RcVarTheorems
import LinSocketIo.Utils.Serializer
import LinSocketIo.Utils.SerializerItems
import LinSocketIo.Utils.SerializerTheorems
import LinSocketIo.Utils.SpinLock
import LinSocketIo.Utils.StringHelper
import LinSocketIo.Utils.Thrift
import LinSocketIo.Utils.ThriftHeader
import LinSocketIo.Utils.ThriftMessages
import LinSocketIo.Utils.ThriftTheorems
import LinSocketIo.Utils.ThriftTruncation
import LinSocketIo.Utils.ThriftValue
import LinSocketIo.Utils.UrlCodec
import LinSocketIo.Utils.UrlParser
import LinSocketIo.Utils.UrlParserTheorems
import LinSocketIo.Utils.UrlRoundTrip
