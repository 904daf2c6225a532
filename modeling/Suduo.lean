import Suduo.Lib.Reach
import Suduo.Lib.Monitor
import Suduo.Lib.Duplex
import Suduo.Lib.Slice
import Suduo.Lib.SortedMap
import Suduo.Lib.Incremental
import Suduo.Lib.Endian
import Suduo.Base.Mutex
import Suduo.Base.AsyncLogger
import Suduo.Base.AsyncLoggerStop
import Suduo.Base.CircularBuffer
import Suduo.Base.CircularBufferRun
import Suduo.Base.BoundedBlockingQueue
import Suduo.Base.BlockingQueue
import Suduo.Base.ThreadPool
import Suduo.Base.CountDownLatch
import Suduo.Base.Thread
import Suduo.Net.EventLoop
import Suduo.Net.EventLoopThread
import Suduo.Net.Buffer
import Suduo.Net.BufferQueue
import Suduo.Net.BufferInput
import Suduo.Net.BufferInt
import Suduo.Net.TimerQueue
import Suduo.Net.TimerDue
import Suduo.Net.TimerKept
import Suduo.Net.TimerMaps
import Suduo.Net.TimerArmed
import Suduo.Net.TimerCancel
import Suduo.Net.TimerRound
import Suduo.Net.TimerThreads
import Suduo.Net.TimerSpacing
import Suduo.Net.Channel
import Suduo.Net.Poller
import Suduo.Net.PollerTable
import Suduo.Net.PollerAgree
import Suduo.Net.PollerSlots
import Suduo.Net.Dispatch
import Suduo.Net.TcpConnection
import Suduo.Net.TcpSend
import Suduo.Net.TcpFrame
import Suduo.Net.TcpOutput
import Suduo.Net.TcpMoves
import Suduo.Net.TcpFlowControl
import Suduo.Net.TcpShutdown
import Suduo.Net.TcpInput
import Suduo.Net.TcpStream
import Suduo.Net.Acceptor
import Suduo.Net.TcpClose
import Suduo.Net.TcpNested
import Suduo.Net.TcpDestroy
import Suduo.Net.TcpRemoved
import Suduo.Net.ConnectionName
import Suduo.Net.TcpServer
import Suduo.Net.ConnectionLife
import Suduo.Net.TcpServerShape
import Suduo.Net.TcpServerLife
import Suduo.Net.TcpServerTable
import Suduo.Net.TcpServerLifetime
import Suduo.Net.TcpServerLoops
import Suduo.Net.Connector
import Suduo.Net.ConnectorSockets
import Suduo.Net.ConnectorStop
import Suduo.Net.TcpClient
import Suduo.Net.TcpClientLife
import Suduo.Net.TcpClientSteps
import Suduo.Net.TcpClientRuns
import Suduo.Bench.LengthHeaderCodec
import Suduo.Bench.Latency
import Suduo.Bench.HttpContext
import Suduo.Bench.HttpGrammar
import Suduo.Bench.HttpRoundTrip
import Suduo.Bench.HttpTermination
import Suduo.Bench.HttpServer
import Suduo.Bench.HttpRejected
import Suduo.Bench.HttpResponse
import Suduo.Bench.HttpService
import Suduo.Bench.PingPong
import Suduo.Bench.Pipes
import Suduo.Lib.Memory
import Suduo.Net.SelfConnect
import Suduo.Net.EPollBatch
import Suduo.Net.BufferCapacity
import Suduo.Lib.IpText
import Suduo.Lib.CharArray
import Suduo.Net.InetAddress
import Suduo.Base.LogStream
import Suduo.Base.LogFile
import Suduo.Base.LogPipeline
import Suduo.Base.Logger
import Suduo.Base.LogSystem
