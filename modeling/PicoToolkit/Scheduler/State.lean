import PicoToolkit.Library.Tag
import PicoToolkit.Scheduler.List

/-!
The data of the scheduler: task and futex control blocks, the scheduler structure and the data each
core keeps for itself.  The rings through the control blocks are kept in a store `R`; `Links` is the
memory of the C code, `Family` holds the plain lists.
-/

namespace PicoToolkit

open Ring Tag

abbrev Word : Type := BitVec 32

-- Fixed instances: the terms of a definition do not depend on what its module imports.
instance (priority := high) : LawfulBEq Word := inferInstance
instance (priority := high) neZero_one : NeZero 1 := inferInstance
instance (priority := high) neZero_two : NeZero 2 := inferInstance

def uint32Max : Nat := 2 ^ 32 - 1
def int32Max : Int := 2 ^ 31 - 1

def schedulerNumTaskPriorities : Nat := 64
def schedulerMinTaskPriority : Nat := schedulerNumTaskPriorities - 1
def schedulerMaxDeferedWake : Nat := 8
def schedulerTimeSlice : Int := int32Max

def schedulerWaitForever : Word := 0xffffffff

def schedulerIgnoreViable : Word := 0x01
def schedulerTaskStackCheck : Word := 0x02
def schedulerPrimordialTask : Word := 0x10
def schedulerCoreAffinity : Word := 0x20
def schedulerCreateSuspended : Word := 0x40

def schedulerFutexContentionTracking : Word := 0x1
def schedulerFutexPi : Word := 0x2
def schedulerFutexOwnerTracking : Word := 0x4

def flagSet (flags mask : Word) : Bool := flags &&& mask ≠ 0

inductive TaskState where
  | terminated
  | blocked
  | suspended
  | ready
  | running
  deriving DecidableEq

def TaskState.code : TaskState → Nat
  | .terminated => 1
  | .blocked => 2
  | .suspended => 4
  | .ready => 5
  | .running => 6

inductive Errno where
  | esrch
  | einval
  | ebusy
  | efault
  | enospc
  | ecanceled
  | etimedout
  deriving DecidableEq

/-- What register `r0` of a frame holds: a value, or a negative error number. -/
inductive Result where
  | value (word : Word)
  | error (number : Errno)
  deriving DecidableEq

inductive QueueId where
  | readyQueue
  | waiters (futex : Word)
  deriving DecidableEq

/-- `struct task`, less its list nodes; `r0` is the register saved in the frame at `psp`, and
`stackMarker` tells whether both guard words at the end of the stack are intact. -/
structure Task where
  state : TaskState := .terminated
  core : Nat := uint32Max
  affinity : Nat := uint32Max
  basePriority : Nat := 0
  currentPriority : Nat := 0
  timerExpires : Word := 0
  currentQueue : Option QueueId := none
  flags : Word := 0
  stackMarker : Bool := true
  r0 : Result := .value 0
  marker : Bool := false

/-- `struct futex`, less its list nodes; `value` is the address of the word it guards. -/
structure Futex where
  value : Word := 0
  flags : Word := 0
  marker : Bool := false

/-- Where a core is in `scheduler_switch`; outside of it, it runs a thread or a service.  The
argument is the local variable `last_task`, and for the drain loop also its index. -/
inductive SwitchPc where
  | outside
  | drain (index : Nat) (lastTask : Option Word)
  | timers (lastTask : Option Word)
  | pick (lastTask : Option Word)
  | idle (lastTask : Option Word)
  deriving DecidableEq

/-- The spin lock is held throughout `scheduler_switch`, except in the idle hook. -/
def SwitchPc.holdsSpinLock : SwitchPc → Bool
  | .outside => false
  | .drain _ _ => true
  | .timers _ => true
  | .pick _ => true
  | .idle _ => false

/-- The `core_local` variables, the pending bit of PendSV and the position in the switch. -/
structure CoreLocal where
  schedulerInitialFrame : Option Result := none
  currentTask : Option Word := none
  sliceExpires : Int := int32Max
  ticks : Word := 0
  deferredWake : Nat → Option (Word × Bool) := fun _ => none
  takenWakeCounter : Word := 0
  givenWakeCounter : Word := 0
  pendSv : Bool := false
  pc : SwitchPc := .outside

/-- `struct scheduler` with everything its services read and write, on `cores` cores. -/
structure State (R : Type → Type → Type) (cores : Nat) where
  task : Word → Task
  futex : Word → Futex
  memory : Word → Word
  coreLocal : Fin cores → CoreLocal
  queues : R QueueId Word
  timers : R Unit Word
  tasks : R Unit Word
  ownedFutexes : Links Word Word
  timerExpires : Word
  sliceDuration : Int
  locked : Int
  running : Int

variable {R : Type → Type → Type} [Store R] {cores : Nat}

namespace State

def setTask (state : State R cores) (task : Word) (change : Task → Task) : State R cores :=
  { state with task := Function.update state.task task (change (state.task task)) }

def setCore (state : State R cores) (core : Fin cores) (change : CoreLocal → CoreLocal) :
    State R cores :=
  { state with coreLocal := Function.update state.coreLocal core (change (state.coreLocal core)) }

def setMemory (state : State R cores) (address value : Word) : State R cores :=
  { state with memory := Function.update state.memory address value }

def setOwned (state : State R cores) (change : Links Word Word → Links Word Word) :
    State R cores :=
  { state with ownedFutexes := change state.ownedFutexes }

def listTask (state : State R cores) (task : Word) : State R cores :=
  { state with tasks := Store.insert state.tasks () none task }

def unlistTask (state : State R cores) (task : Word) : State R cores :=
  { state with tasks := Store.remove state.tasks task }

def linkTimer (state : State R cores) (entry : Option Word) (task : Word) : State R cores :=
  { state with timers := Store.insert state.timers () entry task }

def unlinkTimer (state : State R cores) (task : Word) : State R cores :=
  { state with timers := Store.remove state.timers task }

def queue (state : State R cores) (queue : QueueId) : List Word :=
  Store.entries state.queues queue

def timerList (state : State R cores) : List Word := Store.entries state.timers ()

def taskList (state : State R cores) : List Word := Store.entries state.tasks ()

def currentTask (state : State R cores) (core : Fin cores) : Option Word :=
  (state.coreLocal core).currentTask

def futexValue (state : State R cores) (futex : Word) : Word :=
  state.memory (state.futex futex).value

end State

def Futex.inherits (futex : Futex) : Bool :=
  flagSet futex.flags schedulerFutexPi && flagSet futex.flags schedulerFutexOwnerTracking

def Task.eligible (task : Task) (core : Nat) : Bool :=
  !flagSet task.flags schedulerCoreAffinity || task.affinity = core

/-- `scheduler_check_stack` -/
def schedulerCheckStack (task : Task) : Bool :=
  !flagSet task.flags schedulerTaskStackCheck || task.stackMarker

end PicoToolkit
