import Translib.LoopMachine
import Translib.Loop
import Translib.TransitionMachine
import Translib.CallbackMachine
import Translib.Framing
import Translib.TcpServerTPKT
import Translib.TcpClientTPKT
import Translib.TpktRobustness
import Translib.TpktRoundTrip
import Translib.TpktResync
import Translib.TpktAgreement
import Translib.TpktSenders
import Translib.GracefulClose
import Translib.Countdown
import Translib.Timer
import Translib.TimerRefinement
import Translib.TimerManager
import Translib.ForeverTimers
import Translib.TcpServer
import Translib.ConnectionSystem
import Translib.AcceptedConnections
import Translib.ThreadJoins
import Translib.TimerAudit
import Translib.ManagedLoop
import Translib.DispatcherTeardown
import Translib.ClientRuns
import Translib.SocketLife
import Translib.SendAcceptance
import Translib.ClientProtocol
import Translib.DescriptorTable
import Translib.KeyTable
import Translib.TimerIds
import Translib.ClientDescriptors
import Translib.ServerRuns
import Translib.AcceptedSockets
import Translib.SessionCallbacks
import Translib.StopRequests
import Translib.LoopStarts
import Translib.LoopRegistry
import Translib.SharedLoop
import Translib.HttpRequest
import Translib.KeyedList
import Translib.HttpReplies
import Translib.HttpHeaders
import Translib.EventCounting
import Translib.ManagerTeardown
import Translib.Precedence
import Translib.ServerTeardown
import Translib.WorkQueue
import Translib.FrameActions
import Translib.HeaderTruth
import Translib.ClientFrameBuffer
import Translib.HttpBodies
import Translib.FailedListens
import Translib.ManagerAudits
import Translib.FailedStarts
import Translib.RoundCounts
import Translib.NestedLoops
import Translib.ActionQueues
import Translib.FramedLink
import Translib.GuardedWriters
import Translib.HttpServer
import Translib.Logger
import Translib.RoundRobin
import Translib.ServerShutdown
import Translib.SessionBalance
import Translib.TimerLives
import Translib.CallbackTimers
import Translib.SocketAddresses
import Translib.TpktAcceptance
import Translib.HttpTeardown
import Translib.DispatcherLocks
import Translib.ManagerLocks
