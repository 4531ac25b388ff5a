import Netmux.ActionRuns
import Netmux.BoundedMemory
import Netmux.SocketBuffer
import Netmux.QueueRefinement
import Netmux.ChannelPoller
import Netmux.ChannelTeardown
import Netmux.TcpConnection
import Netmux.ConnectionOutput
import Netmux.ConnectionInput
import Netmux.CallbackProtocol
import Netmux.EventLoop
import Netmux.FunctorHistory
import Netmux.LoopWakeup
import Netmux.LoopQuit
import Netmux.QuitRequest
import Netmux.TcpServer
import Netmux.ConnectionRemoval
import Netmux.InputConservation
import Netmux.PollerRegistration
import Netmux.ConnectionDestruction
import Netmux.SharedConnection
import Netmux.SharedSteps
import Netmux.SharedWork
import Netmux.StateOrder
import Netmux.SendSnapshot
import Netmux.ConnectionLifetime
import Netmux.HalfClose
import Netmux.ServerThreads
import Netmux.ServerCalls
import Netmux.ServerSteps
import Netmux.ThreadConfinement
import Netmux.CallbackTargets
import Netmux.NumberedTable
import Netmux.ConnectionTable
import Netmux.BufferLimits
import Netmux.StorageBound
import Netmux.OutputDrain
import Netmux.WriteInterest
import Netmux.IdleChannels
import Netmux.FailedCalls
import Netmux.HighWaterMark
import Netmux.RoundRobin
import Netmux.ThreadPool
import Netmux.PollResults
import Netmux.CallbackRequests
import Netmux.ThreadHandshake
import Netmux.StartHandshake
import Netmux.StopHandshake
import Netmux.LoopPasses
import Netmux.CriticalSections
import Netmux.QueueLocking
import Netmux.LoopAgenda
import Netmux.ServerLoad
import Netmux.ConnectionCalls
import Netmux.EstablishedFirst
import Netmux.ReliableStream
import Netmux.RequestReply
import Netmux.ThreadedServer
import Netmux.EchoServer
import Netmux.CallbackReactor
import Netmux.BreakableLoop
import Netmux.ClientCalls
import Netmux.SelectServer
import Netmux.PollServer
import Netmux.EpollServer
import Netmux.ServersAgree
import Netmux.UniqueOwnership
import Netmux.TcpSocket
import Netmux.SendOrder
import Netmux.ChannelLifetime
