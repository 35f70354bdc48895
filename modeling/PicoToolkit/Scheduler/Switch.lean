import PicoToolkit.Scheduler.Services

/-!
`scheduler_switch`, cut where interrupts can change what it reads: entry, each round of the drain
loop and of the timer loop, the choice of the next task, and the idle hook.
-/

namespace PicoToolkit

open Ring

variable {R : Type → Type → Type} [Store R] {cores : Nat}

/-- Some task can still run, wait or sleep, other than those that do not keep the scheduler alive. -/
def schedulerIsViable (state : State R cores) : Bool :=
  state.taskList.any fun task =>
    decide (TaskState.blocked.code ≤ (state.task task).state.code) &&
      !flagSet (state.task task).flags schedulerIgnoreViable

def setPc (core : Fin cores) (pc : SwitchPc) (state : State R cores) : State R cores :=
  state.setCore core fun coreLocal => { coreLocal with pc := pc }

/-- The entry of `scheduler_switch`: the exception is no longer pending, and the running task, if
there is one, goes back to the ready queue unless the scheduler is locked. -/
def schedulerSwitchEnter (core : Fin cores) (state : State R cores) : State R cores :=
  let task := schedGetCurrent core state
  let state := state.setCore core fun coreLocal => { coreLocal with pendSv := false }
  let state := schedSetCurrent core none state
  match task with
  | none => setPc core (.drain 0 none) state
  | some task =>
      if state.locked < 0 then schedSetCurrent core (some task) state
      else
        let state := setTaskStateOff task .ready state
        let state := schedQueuePush .readyQueue task state
        setPc core (.drain 0 (some task)) state

def schedulerSwitchDrain (core : Fin cores) (index : Nat) (lastTask : Option Word)
    (state : State R cores) : Option (State R cores) :=
  let coreLocal := state.coreLocal core
  if coreLocal.takenWakeCounter ≠ coreLocal.givenWakeCounter ∧ index < schedulerMaxDeferedWake then
    let state := state.setCore core fun coreLocal =>
      { coreLocal with
        deferredWake := Function.update coreLocal.deferredWake index none
        pc := .drain (index + 1) lastTask }
    match coreLocal.deferredWake index with
    | none => some state
    | some (futex, all) =>
        (schedulerWakeFutex futex all state).map fun (state, _) =>
          state.setCore core fun coreLocal =>
            { coreLocal with takenWakeCounter := coreLocal.takenWakeCounter + 1 }
  else some (setPc core (.timers lastTask) state)

def schedulerSwitchTimers [NeZero cores] (core : Fin cores) (lastTask : Option Word)
    (state : State R cores) : State R cores :=
  match schedulerTimerPop state with
  | none => setPc core (.pick lastTask) state
  | some (expired, state) =>
      let state := schedQueueRemove expired state
      let state := setResult expired (.error .etimedout) (setTaskState expired .ready state)
      schedQueuePush .readyQueue expired state

def schedulerEvict (task : Word) (state : State R cores) : State R cores :=
  let state := setResult task (.error .efault) (setTaskState task .terminated state)
  let state := schedQueueRemove task state
  (state.unlinkTimer task).unlistTask task

/-- A core is kicked if the first ready task it may run is more urgent than what it runs. -/
def schedulerKicks (state : State R cores) (core : Fin cores) : Bool :=
  match state.currentTask core with
  | none => false
  | some coreTask =>
      match (state.queue .readyQueue).find? fun cursor => (state.task cursor).eligible core with
      | none => false
      | some cursor =>
          decide ((state.task cursor).currentPriority < (state.task coreTask).currentPriority)

def schedulerKickCores (core : Fin cores) (state : State R cores) : State R cores :=
  { state with
    coreLocal := fun other =>
      if other ≠ core ∧ schedulerKicks state other then
        { state.coreLocal other with pendSv := true }
      else state.coreLocal other }

/-- Make the task the current one of the core, with a new slice unless it was before the switch. -/
def schedulerOccupy (core : Fin cores) (task : Word) (lastTask : Option Word)
    (state : State R cores) : State R cores :=
  state.setCore core fun coreLocal =>
    { coreLocal with
      sliceExpires :=
        if some task ≠ lastTask ∨ coreLocal.sliceExpires < 0 then state.sliceDuration
        else coreLocal.sliceExpires
      currentTask := some task
      pc := .outside }

def schedulerDispatch (core : Fin cores) (task : Word) (lastTask : Option Word)
    (state : State R cores) : State R cores :=
  let state := state.setTask task fun entry => { entry with state := .running, core := core }
  let state := schedulerOccupy core task lastTask state
  schedulerKickCores core state

def schedulerStop (core : Fin cores) (state : State R cores) : State R cores :=
  let state := { state with running := state.running - 1 }
  state.setCore core fun coreLocal =>
    { coreLocal with schedulerInitialFrame := some (.value 0), pc := .outside }

def schedulerSwitchIdle (core : Fin cores) (lastTask : Option Word) (state : State R cores) :
    State R cores :=
  if !schedulerIsViable state && (state.coreLocal core).schedulerInitialFrame.isSome then
    schedulerStop core state
  else setPc core (.idle lastTask) state

def schedulerSwitchPick (core : Fin cores) (lastTask : Option Word) (state : State R cores) :
    State R cores :=
  match schedQueuePop .readyQueue (some core) state with
  | none => schedulerSwitchIdle core lastTask state
  | some (task, state) =>
      if schedulerCheckStack (state.task task) then schedulerDispatch core task lastTask state
      else schedulerSwitchIdle core lastTask (schedulerEvict task state)

def schedulerIdleReturn (core : Fin cores) (lastTask : Option Word) (state : State R cores) :
    State R cores :=
  state.setCore core fun coreLocal =>
    { coreLocal with pendSv := false, pc := .drain 0 lastTask }

def schedulerTickTimers [NeZero cores] (core : Fin cores) (state : State R cores) : State R cores :=
  if state.timerExpires ≤ schedulerGetTicks state then schedulerRequestSwitch core state else state

def schedulerTickSlice (core : Fin cores) (state : State R cores) : State R cores :=
  if (state.coreLocal core).sliceExpires ≠ int32Max then
    let state := state.setCore core fun coreLocal =>
      { coreLocal with sliceExpires := coreLocal.sliceExpires - 1 }
    if (state.coreLocal core).sliceExpires = 0 then schedulerRequestSwitch core state else state
  else state

def schedulerTick [NeZero cores] (core : Fin cores) (state : State R cores) : State R cores :=
  if schedulerIsRunning state then
    let state := state.setCore core fun coreLocal => { coreLocal with ticks := coreLocal.ticks + 1 }
    schedulerTickSlice core (schedulerTickTimers core state)
  else state

/-- The slot that `scheduler_futex_wake` claims from an interrupt, from `index` on: the first one
that is free, or none if the same request is found before or no slot is free. -/
def deferredSlot (slots : Nat → Option (Word × Bool)) (wakeup : Word × Bool) :
    Nat → Nat → Option Nat
  | 0, _ => none
  | fuel + 1, index =>
      match slots index with
      | none => some index
      | some other => if other = wakeup then none else deferredSlot slots wakeup fuel (index + 1)

def schedulerFutexWakeDeferred (core : Fin cores) (futex : Word) (all : Bool)
    (state : State R cores) : State R cores :=
  let flags := (state.futex futex).flags
  if flagSet flags schedulerFutexPi || flagSet flags schedulerFutexOwnerTracking then state
  else
    match deferredSlot (state.coreLocal core).deferredWake (futex, all) schedulerMaxDeferedWake 0 with
    | none => state
    | some index =>
        let state := state.setCore core fun coreLocal =>
          { coreLocal with
            deferredWake := Function.update coreLocal.deferredWake index (some (futex, all))
            givenWakeCounter := coreLocal.givenWakeCounter + 1 }
        schedulerRequestSwitch core state

end PicoToolkit
