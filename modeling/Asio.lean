import Asio.Lib.Transition
import Asio.Lib.Transmission
import Asio.Lib.BinaryHeap
import Asio.Lib.Line
import Asio.Lib.LinkedList
import Asio.Lib.LinkedLists
import Asio.Lib.Partition
import Asio.Lib.Interleaving
import Asio.Lib.Chain
import Asio.Lib.Simulation
import Asio.Lib.Grouped
import Asio.Lib.Holdings
import Asio.Lib.Occurrence
import Asio.Lib.Gate
import Asio.Lib.BigEndian
import Asio.Lib.Block
import Asio.Lib.Traversal
import Asio.BufferedStreamStorage
import Asio.ByteQueue
import Asio.BasicStreambuf
import Asio.BasicStreambufQueue
import Asio.DynamicBuffer
import Asio.DynamicContainer
import Asio.ReadUntil
import Asio.ReadUntilString
import Asio.CancellationState
import Asio.ConsumingBuffers
import Asio.Chat.ChatMessage
import Asio.Chat.ChatServer
import Asio.ComposedTransfer
import Asio.ComposedTransferRuns
import Asio.ComposedTransferAt
import Asio.ComposedTransferAtRuns
import Asio.ComposedTransferAtStreambuf
import Asio.BufferedWriteStream
import Asio.BufferedReadStream
import Asio.Awaitable
import Asio.AwaitableRuns
import Asio.Detail.TimerQueue
import Asio.Detail.TimerQueueHeap
import Asio.Detail.TimerQueueShape
import Asio.Detail.TimerMap
import Asio.Detail.TimerQueueRuns
import Asio.Detail.PosixEvent
import Asio.Detail.Scheduler
import Asio.Detail.SchedulerThreads
import Asio.Detail.SchedulerLedger
import Asio.Detail.SchedulerConservation
import Asio.Detail.SchedulerWork
import Asio.Detail.SchedulerWakeup
import Asio.Detail.SchedulerNesting
import Asio.Detail.SignalSetService
import Asio.Detail.SignalSetLists
import Asio.Detail.SignalSetRegistry
import Asio.Detail.SignalSetRuns
import Asio.Detail.SignalSetDelivery
import Asio.Detail.ServiceRegistry
import Asio.Detail.ReactorOp
import Asio.Detail.ReactorOpHistory
import Asio.Detail.EpollReactor
import Asio.Detail.EpollReactorRuns
import Asio.Detail.OpQueue
import Asio.Detail.EpollReactorCancellation
import Asio.Detail.EpollReactorEdges
import Asio.Detail.KqueueReactor
import Asio.Detail.KqueueReactorRuns
import Asio.Detail.IoUringService
import Asio.Detail.IoUringRuns
import Asio.Detail.IoUringPool
import Asio.Detail.HashMap
import Asio.Detail.OperationMap
import Asio.Detail.ReactorOpQueue
import Asio.Detail.ReactorOpQueueMap
import Asio.Detail.WinIocpIoContext
import Asio.Detail.WinIocpStop
import Asio.Detail.WinObjectHandleService
import Asio.Detail.WinObjectHandleRuns
import Asio.Detail.WinObjectHandleOwners
import Asio.Detail.WinObjectHandleWaits
import Asio.Detail.WinObjectHandleDelivery
import Asio.Detail.WinIocpHandshake
import Asio.Detail.WinIocpResults
import Asio.Experimental.ChannelService
import Asio.Experimental.ChannelRuns
import Asio.Experimental.ChannelFifo
import Asio.Experimental.ChannelClose
import Asio.Experimental.ParallelGroup
import Asio.Experimental.ParallelGroupRuns
import Asio.Experimental.ParallelGroupSignals
import Asio.Experimental.AwaitableOperators
import Asio.Ssl.Engine
import Asio.Ssl.IoOp
import Asio.Ssl.IoOpGuard
import Asio.Ssl.IoOpBytes
import Asio.Ip.Address
import Asio.Ip.AddressRange
import Asio.Ip.Network
import Asio.Ip.NetworkHosts
import Asio.Ip.NetworkSubnets
import Asio.Ip.Netmask
import Asio.Ip.NetworkParsing
import Asio.Detail.ReactiveSocketService
import Asio.Detail.ReactiveSocketCancellation
import Asio.Lib.Observation
import Asio.Experimental.ChannelMoves
import Asio.Experimental.ChannelCapacity
import Asio.Experimental.ChannelReset
import Asio.Experimental.ChannelHandover
import Asio.Experimental.ChannelBatch
import Asio.Detail.ChronoTimeTraits
import Asio.Detail.TimerQueueSet
import Asio.Detail.TimerQueueStale
import Asio.Detail.TimerQueueAll
import Asio.Detail.DeadlineTimerService
import Asio.Detail.DeadlineTimerServiceRuns
import Asio.Lib.Digits
import Asio.Lib.Separated
import Asio.Detail.InetPton
import Asio.Detail.InetPtonLanguage
import Asio.Detail.InetPtonGrammar
import Asio.Detail.InetNtop
import Asio.Detail.InetRoundTrip
import Asio.Lib.Baton
import Asio.Detail.StrandExecutorService
import Asio.Detail.StrandExecutorRuns
import Asio.Detail.StrandExecutorHistory
import Asio.Detail.StrandService
import Asio.Detail.StrandServiceRuns
import Asio.Detail.StrandServiceHistory
import Asio.Detail.DeadlineTimerWait
import Asio.Detail.SelectReactor
import Asio.BasicStreambufPointers
import Asio.BasicStreambufPrepare
import Asio.BufferedWriteStreamErrors
import Asio.ConsumingBuffersCursor
import Asio.BufferCopy
import Asio.BuffersIterator
import Asio.Experimental.ChannelDrain
import Asio.Detail.WinIocpAccept
import Asio.Detail.WinIocpCancellation
import Asio.Detail.WinIocpCancellationRuns
import Asio.Experimental.Coro
import Asio.Experimental.CoroRuns
import Asio.Experimental.Promise
import Asio.Experimental.PromiseRuns
import Asio.Ssl.BufferedHandshakeOp
import Asio.Ssl.Io
import Asio.Detail.IoUringRing
import Asio.Detail.IoUringRingRun
import Asio.Detail.IoUringTimers
import Asio.Detail.IoUringFork
import Asio.Detail.WinIocpFallback
import Asio.Detail.WinIocpTimers
import Asio.BasicSocketStreambuf
import Asio.Lib.Wildcard
import Asio.Ssl.Rfc2818Verification
import Asio.Local.Detail.Endpoint
import Asio.Detail.ResolverServiceBase
import Asio.BasicSocketStreambufConnect
import Asio.BasicSocketStreambufAreas
import Asio.BasicSocketStreambufMoves
import Asio.Connect
import Asio.Detail.HashMapRuns
import Asio.Detail.BufferSequenceAdapter
import Asio.Ssl.WriteOp
import Asio.Detail.NativeBuffers
import Asio.Detail.SocketAccept
import Asio.Detail.IoUringAccept
import Asio.Detail.EpollAccept
import Asio.Detail.ThreadInfoBase
import Asio.Detail.ThreadInfoBaseRuns
import Asio.Lib.Lending
import Asio.CancellationSignal
import Asio.Detail.GetAddrInfo
import Asio.Detail.GetAddrInfoServices
import Asio.Detail.GetAddrInfoExpansion
import Asio.Detail.OpQueues
import Asio.Detail.PosixFdSet
import Asio.Detail.PosixFdSetRuns
import Asio.Lib.WriteBack
import Asio.Detail.PendingEventChanges
import Asio.Detail.DevPollReactor
import Asio.Detail.DevPollReactorRuns
import Asio.Ip.AddressIterator
import Asio.Lib.Ownership
import Asio.Lib.FileDescriptors
import Asio.Detail.ReactiveSocketServiceBase
import Asio.Detail.ReactiveSocketOwners
import Asio.Detail.ReactiveSocketRegistrations
import Asio.Detail.ReactiveSocketRegistrationsRuns
import Asio.Detail.BlockingExecutorOp
import Asio.Detail.EpollTimers
import Asio.Lib.Scanner
import Asio.Http.Server.RequestParser
import Asio.Http.Server.RequestParserLanguage
import Asio.Chat.ChatRuns
