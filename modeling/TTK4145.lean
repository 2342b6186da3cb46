import TTK4145.Lib.Machine
import TTK4145.Lib.ByteBuf
import TTK4145.Lib.Lifecycle
import TTK4145.Lib.Ledger
import TTK4145.Lib.Slots
import TTK4145.Lib.Tally
import TTK4145.Lib.Channel
import TTK4145.Lib.CNumber
import TTK4145.Lib.Numeral
import TTK4145.Lib.Countdown
import TTK4145.Lib.WaitFor
import TTK4145.Rtsystem.Core.FifoQueueRefinement
import TTK4145.Rtsystem.Core.FifoQueueBounds
import TTK4145.Rtsystem.Core.FifoQueueThreads
import TTK4145.Rtsystem.Core.FifoQueueEvents
import TTK4145.Rtsystem.Core.FifoQueueCancel
import TTK4145.Rtsystem.Core.FifoQueueSerial
import TTK4145.Rtsystem.Core.TaskHelper
import TTK4145.Rtsystem.Core.PollAll
import TTK4145.Rtsystem.AsyncLogHelper
import TTK4145.Rtsystem.Core.TaskArray
import TTK4145.Rtsystem.Core.TaskRegistry
import TTK4145.Rtsystem.LogQueue
import TTK4145.Rtsystem.Tasks.LogTask
import TTK4145.Rtsystem.Tasks.LogDrain
import TTK4145.Rtsystem.Tasks.LogOrder
import TTK4145.Rtsystem.Tasks.LogEnd
import TTK4145.Rtsystem.Tasks.LogRefinement
import TTK4145.Rtsystem.Tasks.StdinLifecycle
import TTK4145.Rtsystem.Tasks.StdinInit
import TTK4145.Rtsystem.Tasks.StdinShutdown
import TTK4145.Rtsystem.Tasks.StdinTwice
import TTK4145.Rtsystem.Tasks.StdinOwned
import TTK4145.Rtsystem.Tasks.StdinTask
import TTK4145.Rtsystem.Tasks.StdinBuffer
import TTK4145.Rtsystem.Tasks.StdinFlush
import TTK4145.Rtsystem.Tasks.StdinFraming
import TTK4145.Rtsystem.Tasks.StdinLogged
import TTK4145.Rtsystem.Tasks.StdinTruncation
import TTK4145.Rtsystem.Tasks.StdinEnd
import TTK4145.Rtsystem.Main.Shutdown
import TTK4145.Rtsystem.Main.StopPhase
import TTK4145.Rtsystem.Main.Release
import TTK4145.Rtsystem.Main.Locking
import TTK4145.Rtsystem.Main.LockOwners
import TTK4145.Rtsystem.Main.JoinOrder
import TTK4145.Rtsystem.Main.Deadlock
import TTK4145.Rtsystem.Main.Program
import TTK4145.Rtsystem.Main.ProgramLocks
import TTK4145.Rtsystem.Main.ShutdownEnd
import TTK4145.Rtsystem.Main.ShutdownLog
import TTK4145.Exercise1.RingBuf
import TTK4145.Exercise1.BoundedBuffer
import TTK4145.Exercise1.BufferSafety
import TTK4145.Exercise1.BufferProgress
import TTK4145.Exercise1.BufferProgramEnd
import TTK4145.Exercise1.GoBuffer
import TTK4145.Exercise1.SharedVariable
import TTK4145.Exercise1.NumberServer
import TTK4145.Exercise1.NumberServerEnd
import TTK4145.Exercise2.Arguments
import TTK4145.Exercise2.RxBuf
import TTK4145.Exercise2.UdpReceiver
import TTK4145.Exercise2.TcpReceiver
import TTK4145.Exercise2.SenderArguments
import TTK4145.Exercise2.ArgumentSyntax
import TTK4145.Exercise2.UdpTcpSender
import TTK4145.Exercise2.UdpLink
import TTK4145.Exercise2.TcpLink
import TTK4145.Exercise2.UdpEcho
import TTK4145.Exercise2.SenderWidths
import TTK4145.Exercise2.Repetitions
import TTK4145.Exercise2.Signals
