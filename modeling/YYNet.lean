import YYNet.Lib.Transition
import YYNet.Lib.Checked
import YYNet.Lib.Storage
import YYNet.Lib.ProducerQueue
import YYNet.Lib.OrderedSet
import YYNet.Lib.Tally
import YYNet.Lib.LinkedList
import YYNet.Lib.BigEndian
import YYNet.Lib.PowerOfTwo
import YYNet.Lib.OrderedMap
import YYNet.Lib.Decimal
import YYNet.Lib.Loop
import YYNet.Lib.Cursor
import YYNet.Lib.Duration
import YYNet.Lib.Arrivals
import YYNet.Lib.AppendStream
import YYNet.Net.TcpBuffer
import YYNet.Net.ByteQueue
import YYNet.Net.Codec
import YYNet.Net.CodecStream
import YYNet.Net.CodecStable
import YYNet.Net.EventLoop
import YYNet.Net.LoopOrder
import YYNet.Net.Wakeup
import YYNet.Net.TcpConnection
import YYNet.Net.SendOrder
import YYNet.Net.Disconnect
import YYNet.Net.WriteInterest
import YYNet.Net.ShutWrite
import YYNet.Net.Event
import YYNet.Net.Epoll
import YYNet.Net.Dispatch
import YYNet.Net.TimerQueue
import YYNet.Net.TimerArm
import YYNet.Net.TimerCount
import YYNet.Net.TimerWheel
import YYNet.Net.WheelDue
import YYNet.Net.WheelRepeat
import YYNet.Net.WheelLinks
import YYNet.Net.WheelCancel
import YYNet.Net.ConPool
import YYNet.Net.Acceptor
import YYNet.Net.TcpClient
import YYNet.Net.ConfigCenter
import YYNet.Net.ConfigStored
import YYNet.Net.ConfigAlias
import YYNet.Net.ConfigValue
import YYNet.ThreadPool.Pool
import YYNet.ThreadPool.Conserve
import YYNet.ThreadPool.Counted
import YYNet.ThreadPool.Dependency
import YYNet.ThreadPool.Order
import YYNet.ThreadPool.FirstCome
import YYNet.ThreadPool.Shutdown
import YYNet.Common.LockFreeQueue
import YYNet.Common.LockFreeThreads
import YYNet.Common.AsyncLog
import YYNet.Common.AsyncOrder
import YYNet.Common.LogFiles
import YYNet.Common.FairMutex
import YYNet.Common.FairOrder
import YYNet.Common.StringPiece
import YYNet.Http.Message
import YYNet.Http.RoundTrip
import YYNet.Http.RequestLine
import YYNet.Http.Client
import YYNet.Http.Server
import YYNet.Http.Progress
import YYNet.Http.Incremental
import YYNet.Http.HeaderPointers
import YYNet.Http.Grammar
import YYNet.Http.Query
import YYNet.Http.Parser
import YYNet.Http.BodyView
import YYNet.Http.CloseDecision
import YYNet.Net.ProtoFrames
import YYNet.Net.ReservedPrefix
import YYNet.Net.ConnectFail
import YYNet.Net.AcceptLoop
import YYNet.Net.RpcProvider
import YYNet.Net.RpcHeader
import YYNet.Common.TimeStamp
import YYNet.Common.RingRoom
import YYNet.Common.RingProgress
import YYNet.Net.LoopPool
import YYNet.Http.Router
import YYNet.Http.OnWire
import YYNet.Http.Exchange
import YYNet.Net.WholeBuffer
import YYNet.Net.BytePipe
