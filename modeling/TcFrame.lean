import TcFrame.Machine
import TcFrame.LengthFieldCodec
import TcFrame.TcpConnection
import TcFrame.ConnectionStream
import TcFrame.ConnectionDrain
import TcFrame.ConnectionClose
import TcFrame.ConnectionOnce
import TcFrame.ConnectionInterest
import TcFrame.ConnectionSend
import TcFrame.EventLoop
import TcFrame.EventLoopWakeup
import TcFrame.EventLoopQuit
import TcFrame.HeapOrder
import TcFrame.TimerQueueTasks
import TcFrame.EventLoopTimers
import TcFrame.EventLoopCancel
import TcFrame.EventLoopSleep
import TcFrame.EventLoopFunctors
import TcFrame.EventLoopAffinity
import TcFrame.TcpServer
import TcFrame.TcpServerRegistry
import TcFrame.TcpServerThreads
import TcFrame.TcpServerTurns
import TcFrame.TcpServerEstablish
import TcFrame.TcpServerSockets
import TcFrame.TcpServerStop
import TcFrame.TcpServerDeadline
import TcFrame.TcpClient
import TcFrame.TcpClientConnected
import TcFrame.TcpClientReconnect
import TcFrame.ConnectionNotify
import TcFrame.TcpServerBatch
import TcFrame.TcpServerOwners
import TcFrame.TcpServerLife
import TcFrame.TcpServerLastOwner
import TcFrame.TcpServerTraversal
import TcFrame.TcpServerHolders
import TcFrame.TcpServerOutlive
import TcFrame.TcpServerErasure
import TcFrame.TableSum
import TcFrame.TcpServerAccounts
import TcFrame.TcpServerMetrics
import TcFrame.TcpServerCompletion
import TcFrame.ThreadPoolWakeup
import TcFrame.ThreadPoolShutdown
import TcFrame.LoggerWakeup
import TcFrame.LoggerDelivery
import TcFrame.EchoServer
import TcFrame.CodecPeer
import TcFrame.CodecMemory
import TcFrame.BufferQueue
import TcFrame.WSPollPoller
import TcFrame.PeerClose
import TcFrame.BufferLine
import TcFrame.BufferCapacity
import TcFrame.Counted
import TcFrame.BufferRead
import TcFrame.TimerQueueTimeout
import TcFrame.TimerQueueBatch
import TcFrame.WSPollPollerPoll
import TcFrame.ConnectionHighWater
import TcFrame.ThreadPoolResize
import TcFrame.ThreadPoolJoin
import TcFrame.ThreadPoolFutures
import TcFrame.EventLoopCurrent
import TcFrame.Rounds
import TcFrame.EpollPollerPoll
import TcFrame.LogFiles
import TcFrame.LoggerFiles
import TcFrame.MetricsExport
import TcFrame.Exposition
import TcFrame.MetricsScrape
import TcFrame.EventLoopPace
import TcFrame.EchoSession
import TcFrame.EchoBench
import TcFrame.TcpServerPlacement
import TcFrame.TcpServerIdle
import TcFrame.TcpServerDescriptors
import TcFrame.TcpServerStreams
import TcFrame.EchoService
import TcFrame.EventLoopTurn
import TcFrame.TcpClientLifetime
