import PicoToolkit.Scheduler.Queue

/-!
The service handlers of the scheduler.  A handler runs under the spin lock, as one step; the core
argument is the core that made the service call, and the result goes to register `r0` of its task.
No result state means that an assertion of the handler fails, or that one of its loops never ends.
-/

namespace PicoToolkit

open Ring Tag

variable {R : Type → Type → Type} [Store R] {cores : Nat}

def schedulerRequestSwitch (core : Fin cores) (state : State R cores) : State R cores :=
  state.setCore core fun coreLocal => { coreLocal with pendSv := true }

def setResult (task : Word) (result : Result) (state : State R cores) : State R cores :=
  state.setTask task fun entry => { entry with r0 := result }

def setTaskState (task : Word) (new : TaskState) (state : State R cores) : State R cores :=
  state.setTask task fun entry => { entry with state := new }

def setTaskStateOff (task : Word) (new : TaskState) (state : State R cores) : State R cores :=
  state.setTask task fun entry => { entry with state := new, core := uint32Max }

def returnResult (core : Fin cores) (result : Result) (state : State R cores) : State R cores :=
  match schedGetCurrent core state with
  | none => state
  | some current => setResult current result state

def schedulerIsRunning (state : State R cores) : Bool := decide (state.running > 0)

def schedulerTaskAlive (task : Word) (state : State R cores) : Bool :=
  decide (task ∈ state.taskList)

def schedulerCreateSvc (core : Fin cores) (task : Word) (state : State R cores) : State R cores :=
  let state := state.listTask task
  let state :=
    if flagSet (state.task task).flags schedulerCreateSuspended then
      setTaskState task .suspended state
    else
      let state := setTaskState task .ready state
      let state := schedQueuePush .readyQueue task state
      match schedGetCurrent core state with
      | none => state
      | some current =>
          if schedulerIsRunning state &&
              decide ((state.task task).currentPriority < (state.task current).currentPriority) then
            schedulerRequestSwitch core state
          else state
  returnResult core (.value task) state

def schedulerYieldSvc (core : Fin cores) (state : State R cores) : State R cores :=
  schedulerRequestSwitch core state

/-- The part of `scheduler_suspend_svc` that suspends the task; another task than the caller is taken
off its lists, and then the caller is made ready. -/
def schedulerSuspendTask (current task : Word) (state : State R cores) : State R cores :=
  if task ≠ current then
    let state := schedQueueRemove task state
    let state := schedulerTimerRemove task state
    let state := setTaskStateOff task .suspended state
    let state := setTaskState current .ready state
    schedQueuePush .readyQueue current state
  else setTaskStateOff current .suspended state

def schedulerTimerStart [NeZero cores] (task ticks : Word) (state : State R cores) :
    State R cores :=
  if ticks < schedulerWaitForever then schedulerTimerPush task ticks state else state

def schedulerSuspendSvc [NeZero cores] (core : Fin cores) (task ticks : Word)
    (state : State R cores) : Option (State R cores) :=
  match schedGetCurrent core state with
  | none => none
  | some current =>
      if schedulerTaskAlive task state then
        let state := setResult current (.value 0) state
        let state := schedulerSuspendTask current task state
        let state := schedulerTimerStart task ticks state
        let state := schedSetCurrent core none state
        some (schedulerRequestSwitch core state)
      else some (setResult current (.error .esrch) state)

def schedulerResumeSvc (core : Fin cores) (task : Word) (state : State R cores) : State R cores :=
  if schedulerTaskAlive task state then
    let taskState := (state.task task).state
    let state :=
      if taskState = .blocked ∨ taskState = .suspended then
        let state := schedulerTimerRemove task state
        let state := schedQueueRemove task state
        let state :=
          if (state.task task).state = .blocked then setResult task (.error .ecanceled) state
          else state
        let state := setTaskState task .ready state
        let state := schedQueuePush .readyQueue task state
        returnResult core (.value 0) state
      else returnResult core (.error .einval) state
    schedulerRequestSwitch core state
  else returnResult core (.error .esrch) state

/-- Add a futex to the contended futexes of its owner, unless it is in such a list already. -/
def schedulerLinkOwned (futex owner : Word) (state : State R cores) : State R cores :=
  if schedListIsLinked state.ownedFutexes (.node futex) then state
  else state.setOwned fun links => schedListAdd links (.head owner) (.node futex)

/-- The part of `scheduler_wait_svc` that boosts the owner of a priority inheritance futex. -/
def schedulerBoostOwner (futex owner : Word) (state : State R cores) : State R cores :=
  let state := schedulerLinkOwned futex owner state
  let highestPriority := schedQueueHighestPriority (.waiters futex) state
  if highestPriority < (state.task owner).currentPriority then
    schedQueueReprioritize owner highestPriority state
  else state

/-- The value that `scheduler_wait_svc` leaves in the futex when the caller blocks. -/
def waitValue (futex : Futex) (expected : Word) : Word :=
  if flagSet futex.flags schedulerFutexContentionTracking then tag expected else expected

/-- The part of `scheduler_wait_svc` that puts the caller into the waiter queue. -/
def schedulerEnqueueWaiter [NeZero cores] (current futex value ticks : Word)
    (state : State R cores) : State R cores :=
  let state := state.setMemory (state.futex futex).value value
  let state := schedulerTimerStart current ticks state
  let state := setTaskStateOff current .blocked state
  schedQueuePush (.waiters futex) current state

def schedulerBlock [NeZero cores] (current futex value ticks : Word) (state : State R cores) :
    Option (State R cores) :=
  let state := schedulerEnqueueWaiter current futex value ticks state
  if (state.futex futex).inherits then
    let owner := untag value
    if (state.task owner).marker then some (schedulerBoostOwner futex owner state) else none
  else some state

def schedulerWaitSvc [NeZero cores] (core : Fin cores) (futex expected ticks : Word)
    (state : State R cores) : Option (State R cores) :=
  match schedGetCurrent core state with
  | none => none
  | some current =>
      if (state.futex futex).marker then
        let value := waitValue (state.futex futex) expected
        let state := setResult current (.value 0) state
        let seen := state.futexValue futex
        let next :=
          if seen = expected ∨ seen = value then schedulerBlock current futex value ticks state
          else some (schedQueuePush .readyQueue current (setTaskState current .ready state))
        next.map fun state => schedulerRequestSwitch core (schedSetCurrent core none state)
      else none

/-- The first part of `scheduler_wake_futex`: the owner falls back to its base priority, or to the
most urgent waiter of the futexes that remain in its list. -/
def schedulerRestoreOwner (futex : Word) (state : State R cores) : Option (State R cores) :=
  let owner := untag (state.futexValue futex)
  if (state.task owner).marker then
    let state := state.setOwned fun links => schedListRemove links (.node futex)
    (schedListEntries? state.ownedFutexes owner).map fun owned =>
      let highestPriority := owned.foldl (fun highest other =>
        min highest (schedQueueHighestPriority (.waiters other) state))
        (state.task owner).basePriority
      schedQueueReprioritize owner highestPriority state
  else none

def schedulerTrackOwner (futex task : Word) (state : State R cores) : State R cores :=
  let entry := state.futex futex
  if flagSet entry.flags schedulerFutexOwnerTracking then state.setMemory entry.value task else state

/-- While other waiters remain, the futex goes into the list of the popped task, whose priority
becomes that of the most urgent one of them. -/
def schedulerAdopt (futex task : Word) (state : State R cores) : State R cores :=
  if flagSet (state.futex futex).flags schedulerFutexPi && !schedQueueEmpty (.waiters futex) state then
    let state := state.setOwned fun links => schedListAdd links (.head task) (.node futex)
    schedQueueReprioritize task (schedQueueHighestPriority (.waiters futex) state) state
  else state

/-- What `scheduler_wake_futex` does with one task popped off the waiter queue. -/
def schedulerWakeWaiter (futex task : Word) (state : State R cores) : State R cores :=
  let state := schedulerTrackOwner futex task state
  let state := schedulerAdopt futex task state
  let state := schedulerTimerRemove task state
  let state := setTaskState task .ready state
  schedQueuePush .readyQueue task state

/-- The loop of `scheduler_wake_futex`; it pops a waiter each time around. -/
def schedulerWakeWaiters (futex : Word) (all : Bool) :
    Nat → Nat → State R cores → State R cores × Nat
  | 0, woken, state => (state, woken)
  | fuel + 1, woken, state =>
      match schedQueuePop (.waiters futex) none state with
      | none => (state, woken)
      | some (task, state) =>
          let state := schedulerWakeWaiter futex task state
          if !all || flagSet (state.futex futex).flags schedulerFutexOwnerTracking then
            (state, woken + 1)
          else schedulerWakeWaiters futex all fuel (woken + 1) state

/-- The last part of `scheduler_wake_futex`: the contention bit tells whether waiters remain. -/
def schedulerTrackContention (futex : Word) (state : State R cores) : State R cores :=
  let entry := state.futex futex
  if flagSet entry.flags schedulerFutexContentionTracking then
    if schedQueueEmpty (.waiters futex) state then
      state.setMemory entry.value (untag (state.futexValue futex))
    else state.setMemory entry.value (tag (state.futexValue futex))
  else state

def schedulerRestore (futex : Word) (state : State R cores) : Option (State R cores) :=
  if (state.futex futex).inherits then schedulerRestoreOwner futex state else some state

def schedulerWakeFutex (futex : Word) (all : Bool) (state : State R cores) :
    Option (State R cores × Nat) :=
  (schedulerRestore futex state).map fun state =>
    let (state, woken) :=
      schedulerWakeWaiters futex all (state.queue (.waiters futex)).length 0 state
    (schedulerTrackContention futex state, woken)

def schedulerWakeSvc (core : Fin cores) (futex : Word) (all : Bool) (state : State R cores) :
    Option (State R cores) :=
  if (state.futex futex).marker then
    (schedulerWakeFutex futex all state).map fun (state, woken) =>
      let state := returnResult core (.value (BitVec.ofNat 32 woken)) state
      if woken > 0 then schedulerRequestSwitch core state else state
  else none

def schedulerTerminateSvc (core : Fin cores) (task : Word) (state : State R cores) :
    State R cores :=
  if schedulerTaskAlive task state then
    let current := schedGetCurrent core state
    let state := returnResult core (.value 0) state
    let state := setTaskStateOff task .terminated state
    let state := schedQueueRemove task state
    let state := schedulerTimerRemove task state
    let state := state.unlistTask task
    if current = some task then
      schedulerRequestSwitch core (schedSetCurrent core none state)
    else state
  else returnResult core (.error .esrch) state

def schedulerPrioritySvc (core : Fin cores) (task : Word) (priority : Nat)
    (state : State R cores) : State R cores :=
  if schedulerTaskAlive task state then
    let state := returnResult core (.value 0) state
    let state := state.setTask task fun entry => { entry with basePriority := priority }
    let state := schedQueueReprioritize task priority state
    schedulerRequestSwitch core state
  else returnResult core (.error .esrch) state

end PicoToolkit
