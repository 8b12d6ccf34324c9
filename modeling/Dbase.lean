import Dbase.Error
import Dbase.Lib.Word
import Dbase.Lib.Bytes
import Dbase.Lib.Framing
import Dbase.Lib.Odometer
import Dbase.Lib.Deadlines
import Dbase.Lib.Machine
import Dbase.Lib.Mailbox
import Dbase.Lib.Recency
import Dbase.Lib.Crew
import Dbase.Lib.Monitor
import Dbase.Lib.Matches
import Dbase.Lib.Ring
import Dbase.Lib.Serial
import Dbase.Lib.Reorder
import Dbase.Metrics.Histogram
import Dbase.Metrics.HistogramProofs
import Dbase.Str.Str
import Dbase.Str.StrProofs
import Dbase.Log.Log
import Dbase.Net.Endian
import Dbase.Net.Buffer
import Dbase.Net.BufferProofs
import Dbase.Net.BufferRuns
import Dbase.Net.BufferIntegers
import Dbase.Net.LengthFieldCodec
import Dbase.Net.LengthFieldCodecProofs
import Dbase.Net.CanonicalFrames
import Dbase.Net.FrameLoops
import Dbase.Net.TcpConnection
import Dbase.Net.TcpConnectionProofs
import Dbase.Net.TcpConnectionFlow
import Dbase.Net.TcpConnectionSteps
import Dbase.Net.TcpConnectionRuns
import Dbase.Net.TcpConnectionInterest
import Dbase.Net.EpollPoller
import Dbase.Net.EpollPollerProofs
import Dbase.Net.EventLoop
import Dbase.Net.EventLoopProofs
import Dbase.Net.EventLoopTimers
import Dbase.Net.EventLoopTimerRuns
import Dbase.Net.EventLoopThread
import Dbase.Net.EventLoopThreadProofs
import Dbase.Net.TcpServer
import Dbase.Net.TcpServerRegistry
import Dbase.Net.TcpServerIdle
import Dbase.Net.Connector
import Dbase.Net.ConnectorProofs
import Dbase.Net.ConnectorBackOff
import Dbase.Net.TcpClient
import Dbase.Net.TcpClientProofs
import Dbase.Time.TimerWheel
import Dbase.Time.TimerWheelProofs
import Dbase.Time.TimerWheelDrain
import Dbase.Time.TimerWheelRuns
import Dbase.Cache.LruCache
import Dbase.Cache.LruCacheProofs
import Dbase.Sync.BlockingQueue
import Dbase.Sync.BlockingQueueProofs
import Dbase.Thread.ThreadPool
import Dbase.Thread.ThreadPoolProofs
import Dbase.Thread.SerialExecutor
import Dbase.Thread.SerialExecutorProofs
import Dbase.Thread.TimerQueue
import Dbase.Thread.TimerQueueProofs
import Dbase.Log.AsyncLogger
import Dbase.Log.AsyncLoggerProofs
import Dbase.Lib.Path
import Dbase.Config.ConfigValue
import Dbase.Config.Config
import Dbase.Config.ConfigProofs
import Dbase.Config.FlatView
import Dbase.Config.JsonConfig
import Dbase.Config.Scalars
import Dbase.Config.XmlConfig
import Dbase.Lib.Writes
import Dbase.Config.IniConfig
import Dbase.Config.IniConfigProofs
import Dbase.Log.RotatingFileSink
import Dbase.Log.RotatingFileSinkProofs
import Dbase.Net.KcpSession
import Dbase.Net.KcpSessionProofs
import Dbase.Net.KcpSessionClock
import Dbase.Net.KcpServer
import Dbase.Net.KcpServerProofs
import Dbase.Net.Ikcp
import Dbase.Net.IkcpParts
import Dbase.Net.IkcpWire
import Dbase.Net.IkcpWindows
import Dbase.Net.IkcpFlush
import Dbase.Net.IkcpMessages
import Dbase.Net.IkcpNet
import Dbase.Net.IkcpNetProofs
import Dbase.Net.IkcpDelivery
import Dbase.Net.IkcpEnd
import Dbase.Net.IkcpClock
import Dbase.Net.IkcpExchange
import Dbase.Net.IkcpProgress
import Dbase.Lib.Signed
import Dbase.Lib.Ratio
import Dbase.Math.Fraction
import Dbase.Math.FractionProofs
import Dbase.Math.FractionOperators
import Dbase.Math.FractionConstruction
import Dbase.Math.FractionOrder
import Dbase.Lib.Chain
import Dbase.Time.DoubleLink
import Dbase.Time.DoubleLinkProofs
import Dbase.Time.DoubleLinkRuns
import Dbase.Fs.WriteAtomic
import Dbase.Fs.WriteAtomicProofs
import Dbase.Memory.ObjectPool
import Dbase.Memory.ObjectPoolProofs
import Dbase.Coro.CoroutineScheduler
import Dbase.Coro.CoroutineSchedulerProofs
