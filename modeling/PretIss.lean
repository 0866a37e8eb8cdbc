import PretIss.Isolation.Temporal
import PretIss.Barrier.Agreement
import PretIss.Deadline.Law
import PretIss.Deadline.Reported
import PretIss.Deadline.Spurious
import PretIss.Wheel.Starvation
import PretIss.Pipeline.Interleave
import PretIss.Transfer.Passes
import PretIss.Memory.Transparency
import PretIss.Deadline.Mailbox
import PretIss.Barrier.Accounting
import PretIss.Engine.Blocking
import PretIss.Trap.Entry
import PretIss.Trap.Return
import PretIss.Deadline.Expiry
import PretIss.DoubleWord.Stall
import PretIss.Arithmetic.Compare
import PretIss.Arithmetic.Limbs
import PretIss.Arithmetic.Multiply
import PretIss.Arithmetic.Shift
import PretIss.Trap.Precision
import PretIss.Memory.StaticSchedule
import PretIss.Memory.SrecRecords
import PretIss.Thread.Windows
import PretIss.Thread.Psr
import PretIss.Thread.RegisterZero
import PretIss.Thread.Bounds
import PretIss.Memory.SubWord
import PretIss.Memory.StartAddress
import PretIss.Thread.StalledFetch
import PretIss.Thread.InstructionCount
import PretIss.Scripts.JoinedDeadlines
import PretIss.Scripts.ImageSize
import PretIss.Isolation.Congruence
import PretIss.Machine.Opening
import PretIss.Simulation.Loading
import PretIss.Simulation.Running
