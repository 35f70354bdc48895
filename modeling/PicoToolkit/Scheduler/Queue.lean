import PicoToolkit.Scheduler.State

/-!
The priority queues of tasks and the timer list: `sched_queue_*` and `scheduler_timer_*`.
-/

namespace PicoToolkit

open Ring

variable {R : Type → Type → Type} [Store R] {cores : Nat}

def schedGetCurrent (core : Fin cores) (state : State R cores) : Option Word :=
  state.currentTask core

def schedSetCurrent (core : Fin cores) (task : Option Word) (state : State R cores) :
    State R cores :=
  state.setCore core fun coreLocal => { coreLocal with currentTask := task }

def schedQueueEmpty (queue : QueueId) (state : State R cores) : Bool :=
  (state.queue queue).isEmpty

def schedQueueRemove (task : Word) (state : State R cores) : State R cores :=
  { state with queues := Store.remove state.queues task }.setTask task fun entry =>
    { entry with currentQueue := none }

def lessUrgent (queue : QueueId) (task : Word) (state : State R cores) : Option Word :=
  (state.queue queue).find? fun entry =>
    decide ((state.task entry).currentPriority > (state.task task).currentPriority)

def schedQueuePush (queue : QueueId) (task : Word) (state : State R cores) : State R cores :=
  let entry := lessUrgent queue task state
  { state with queues := Store.insert state.queues queue entry task }.setTask task fun entry =>
    { entry with currentQueue := some queue }

def schedQueuePop (queue : QueueId) (core : Option Nat) (state : State R cores) :
    Option (Word × State R cores) :=
  match core with
  | none => (state.queue queue).head?.map fun task => (task, schedQueueRemove task state)
  | some core =>
      ((state.queue queue).find? fun task => (state.task task).eligible core).map fun task =>
        (task, schedQueueRemove task state)

def schedQueueHighestPriority (queue : QueueId) (state : State R cores) : Nat :=
  match state.queue queue with
  | [] => schedulerNumTaskPriorities
  | first :: _ => (state.task first).currentPriority

def schedQueueReprioritize (task : Word) (newPriority : Nat) (state : State R cores) :
    State R cores :=
  let state := state.setTask task fun entry => { entry with currentPriority := newPriority }
  match (state.task task).currentQueue with
  | none => state
  | some queue => schedQueuePush queue task (schedQueueRemove task state)

def schedulerGetTicks [NeZero cores] (state : State R cores) : Word := (state.coreLocal 0).ticks

/-- The expiry of the first timer, `UINT_MAX` if there is none. -/
def closestTimer (state : State R cores) : Word :=
  match state.timerList with
  | [] => BitVec.ofNat 32 uint32Max
  | first :: _ => (state.task first).timerExpires

def schedulerTimerRemove (task : Word) (state : State R cores) : State R cores :=
  let state := state.unlinkTimer task
  { state with timerExpires := closestTimer state }

/-- The first timer that expires later than the one of the given task, by plain comparison. -/
def laterTimer (task : Word) (state : State R cores) : Option Word :=
  state.timerList.find? fun entry =>
    decide ((state.task entry).timerExpires > (state.task task).timerExpires)

/-- Insert behind all timers that do not expire later.  A loop that finds none ends at the list head;
to insert before that is to push. -/
def schedulerTimerPush [NeZero cores] (task delay : Word) (state : State R cores) :
    State R cores :=
  let state := state.unlinkTimer task
  let state := state.setTask task fun entry =>
    { entry with timerExpires := schedulerGetTicks state + delay }
  let state := state.linkTimer (laterTimer task state) task
  { state with timerExpires := closestTimer state }

def schedulerTimerPop [NeZero cores] (state : State R cores) : Option (Word × State R cores) :=
  match state.timerList with
  | [] => none
  | task :: _ =>
      if (state.task task).timerExpires ≤ schedulerGetTicks state then
        some (task, schedulerTimerRemove task state)
      else none

end PicoToolkit
