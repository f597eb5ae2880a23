import Vcil.Rtl.UartRxFrames
import Vcil.Timing.Scoreboard
import Vcil.Host.Replies
import Vcil.System.NiceLink
import Vcil.Sm3.Refinement
import Vcil.Lib.LeadsTo
import Vcil.Rtl.NiceCoreService
import Vcil.System.GuestCalls
import Vcil.System.DeviceProgress
import Vcil.Iss.State
import Vcil.Iss.Csr
import Vcil.Iss.Float
import Vcil.Iss.Exec
import Vcil.Iss.Builds
import Vcil.Iss.RunStep
import Vcil.Iss.Frames
import Vcil.Iss.BareMetal
import Vcil.Iss.Privilege
import Vcil.Iss.BuildsAgree
import Vcil.Iss.Divergence
import Vcil.Iss.Reachable
import Vcil.Lib.SerialLine
import Vcil.Rtl.NiceTransmit
import Vcil.Rtl.UartPair
import Vcil.Rtl.UartRxStream
import Vcil.Lib.ShiftRegister
import Vcil.Sm4.Nice
import Vcil.System.Deadlock
import Vcil.Iss.Alignment
import Vcil.Iss.Levels
import Vcil.Iss.Restart
import Vcil.Iss.Counters
import Vcil.Iss.FloatContext
import Vcil.Iss.FloatFlags
import Vcil.Iss.NiceCycles
import Vcil.Iss.Routing
import Vcil.Iss.Window
import Vcil.Lib.Recency
import Vcil.Timing.InstrCache
import Vcil.Iss.Views
import Vcil.Iss.Virtualization
import Vcil.Iss.Hazards
import Vcil.Rtl.NiceCoreAnswers
import Vcil.Lib.BoundedStack
import Vcil.Lib.SaturatingCounter
import Vcil.Timing.ReturnStack
import Vcil.Timing.BranchHistory
import Vcil.Timing.MemAccess
import Vcil.Iss.MultiplyDivide
import Vcil.Iss.StoreHazards
import Vcil.Sm3.Recurrences
import Vcil.Sm3.Sizes
import Vcil.Rtl.UartRxNoise
import Vcil.Lib.Pulses
import Vcil.Rtl.UartTop
import Vcil.Rtl.UartTopService
import Vcil.System.Board
import Vcil.Lib.Interaction
import Vcil.System.Programs
import Vcil.Sm3.Guest
import Vcil.Sm4.Standard
import Vcil.Sm4.Guest
import Vcil.Rtl.UartRxRecovery
import Vcil.Lib.SplitCounter
import Vcil.Iss.CounterReads
import Vcil.Iss.Isolation
import Vcil.Lib.Deadlines
import Vcil.Timing.Deadlines
import Vcil.Iss.CycleBounds
import Vcil.Iss.HandlerLoop
import Vcil.Rtl.Protocol
import Vcil.Rtl.UartTopProtocol
import Vcil.Iss.CriticalSections
