import PicoToolkit.Scheduler.Removal
import PicoToolkit.Timer.Order
import PicoToolkit.Futex.Outcome
import PicoToolkit.Futex.Deferred
import PicoToolkit.Threads.CallOnceWaiting
import PicoToolkit.Cmsis.Delay
import PicoToolkit.Cmsis.SemaphoreWakes
import PicoToolkit.Cmsis.PoolConservation
import PicoToolkit.Cmsis.MessageReset
import PicoToolkit.Cmsis.MessageSurvival
import PicoToolkit.Cmsis.EventConsumption
import PicoToolkit.Cmsis.DequeWakes
import PicoToolkit.Cmsis.TimerExpiry
import PicoToolkit.Cmsis.TimerStop
import PicoToolkit.Cmsis.ReapedThreads
import PicoToolkit.Cmsis.ReclaimOnce
import PicoToolkit.Cmsis.KernelLock
import PicoToolkit.Cmsis.Deadlines
import PicoToolkit.Cmsis.RobustRelease
import PicoToolkit.Cmsis.ListLocks
import PicoToolkit.Atomic.WideRegister
import PicoToolkit.Atomic.Flag
import PicoToolkit.Support.Spinlock
import PicoToolkit.Retarget.InitOnce
import PicoToolkit.Retarget.Ownership
import PicoToolkit.Threads.StorageRefinement
import PicoToolkit.Threads.JoinSafety
import PicoToolkit.Threads.Detaching
import PicoToolkit.Threads.Signals
import PicoToolkit.Cmsis.DeletedObjects
import PicoToolkit.Cmsis.Deletions
import PicoToolkit.Multicore.Routing
import PicoToolkit.Cmsis.ThreadStack
import PicoToolkit.Threads.TimedLocks
import PicoToolkit.Cmsis.MutexExclusion
import PicoToolkit.Inheritance.Inversion
import PicoToolkit.Fault.Conformance
import PicoToolkit.Scheduler.Selection
import PicoToolkit.Scheduler.Slicing
import PicoToolkit.Fault.Backtrace
import PicoToolkit.Multicore.NmiTable
import PicoToolkit.Cmsis.SysTimer
import PicoToolkit.Cmsis.PoolFailures
import PicoToolkit.Cmsis.DequeAccounting
import PicoToolkit.Threads.Creation
import PicoToolkit.Cmsis.CreationIndependence
import PicoToolkit.Fault.Description
import PicoToolkit.Retarget.Sbrk
import PicoToolkit.Rtt.Terminal
import PicoToolkit.Rtt.Overwrite
import PicoToolkit.Rtt.Buffers
import PicoToolkit.Port.Refusal
