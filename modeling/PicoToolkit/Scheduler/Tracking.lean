import PicoToolkit.Scheduler.Refinement

/-!
The scheduler on a store of lists and the scheduler on plain lists, side by side.  What a store has to keep
is stated for the changes of the lists; the functions of the queues and of the timers follow.
-/

namespace PicoToolkit

open Ring Transition Tag

variable {R : Type → Type → Type} [Store R] {cores : Nat}

def State.lists (state : State R cores) : Plain cores :=
  { state with
    queues := Store.entries state.queues
    timers := Store.entries state.timers
    tasks := Store.entries state.tasks }

/-- A relation between the states on a store and those on plain lists, which the changes of the lists and
of the priorities keep. -/
structure Tracking (R : Type → Type → Type) [Store R] (cores : Nat) where
  Rel : State R cores → Plain cores → Prop
  reads {state plain} : Rel state plain → state.lists = plain
  queued {state plain} : Rel state plain → Queued plain
  quiet {state next plain nextPlain} : Rel state plain → next.queues = state.queues →
    next.timers = state.timers → next.tasks = state.tasks →
    (∀ task, (next.task task).currentPriority = (state.task task).currentPriority) →
    next.lists = nextPlain → Queued nextPlain → Rel next nextPlain
  unlinkTimer {state plain} (task : Word) : Rel state plain →
    Rel (state.unlinkTimer task) (plain.unlinkTimer task)
  linkTimer {state plain} {entry : Option Word} {task : Word} : Rel state plain →
    (∀ x ∈ entry, x ∈ plain.timerList) → task ∉ plain.timerList →
    Rel (state.linkTimer entry task) (plain.linkTimer entry task)
  listTask {state plain} {task : Word} : Rel state plain → task ∉ plain.taskList →
    Rel (state.listTask task) (plain.listTask task)
  unlistTask {state plain} (task : Word) : Rel state plain →
    Rel (state.unlistTask task) (plain.unlistTask task)
  queueRemove {state plain} (task : Word) : Rel state plain →
    Rel (schedQueueRemove task state) (schedQueueRemove task plain)
  queuePush {state plain} (task : Word) (queue : QueueId) : Rel state plain →
    (plain.whereabouts task).currentQueue = none →
    Rel (schedQueuePush queue task state) (schedQueuePush queue task plain)
  reprioritize {state plain} (task : Word) (newPriority : Nat) : Rel state plain →
    Rel (schedQueueReprioritize task newPriority state) (schedQueueReprioritize task newPriority plain)
  initTask {state plain} {task : Word} (descriptor : TaskDescriptor) : Rel state plain → Placed plain →
    (plain.task task).state = .terminated →
    Rel (schedulerInitTask task descriptor state) (schedulerInitTask task descriptor plain)
  futexInit {state plain} {futex value flags : Word} : Rel state plain →
    plain.queue (.waiters futex) = [] →
    Rel (schedulerFutexInit futex value flags state) (schedulerFutexInit futex value flags plain)

def Tracks (tracking : Tracking R cores) (state : State R cores) (plain : Plain cores) : Prop :=
  tracking.Rel state plain

namespace Tracks

variable {tracking : Tracking R cores} {state : State R cores} {plain : Plain cores}

theorem reads (tracks : Tracks tracking state plain) : state.lists = plain := tracking.reads tracks

theorem queued (tracks : Tracks tracking state plain) : Queued plain := tracking.queued tracks

theorem quiet (tracks : Tracks tracking state plain) {next : State R cores} {nextPlain : Plain cores}
    (queues : next.queues = state.queues) (timers : next.timers = state.timers)
    (tasks : next.tasks = state.tasks)
    (priorities : ∀ task, (next.task task).currentPriority = (state.task task).currentPriority)
    (reads : next.lists = nextPlain) (queued : Queued nextPlain) : Tracks tracking next nextPlain :=
  tracking.quiet tracks queues timers tasks priorities reads queued

theorem setTask (tracks : Tracks tracking state plain) (task : Word) (change : Task → Task)
    (same : (change (plain.task task)).currentQueue = (plain.task task).currentQueue)
    (priority : (change (plain.task task)).currentPriority = (plain.task task).currentPriority) :
    Tracks tracking (state.setTask task change) (plain.setTask task change) := by
  have tasks : plain.task = state.task := by
    rw [← tracks.reads]
    rfl
  refine tracks.quiet rfl rfl rfl (fun other => ?_) (by rw [← tracks.reads]; rfl)
    (tracks.queued.setTask same)
  show (Function.update state.task task _ other).currentPriority = _
  by_cases touched : other = task
  · subst other
    rw [Function.update_self, ← tasks, priority]
  · rw [Function.update_of_ne touched]

theorem setCore (tracks : Tracks tracking state plain) (core : Fin cores)
    (change : CoreLocal → CoreLocal) :
    Tracks tracking (state.setCore core change) (plain.setCore core change) :=
  tracks.quiet rfl rfl rfl (fun _ => rfl) (by rw [← tracks.reads]; rfl) tracks.queued

theorem setMemory (tracks : Tracks tracking state plain) (address value : Word) :
    Tracks tracking (state.setMemory address value) (plain.setMemory address value) :=
  tracks.quiet rfl rfl rfl (fun _ => rfl) (by rw [← tracks.reads]; rfl) tracks.queued

theorem setOwned (tracks : Tracks tracking state plain) (change : Links Word Word → Links Word Word) :
    Tracks tracking (state.setOwned change) (plain.setOwned change) :=
  tracks.quiet rfl rfl rfl (fun _ => rfl) (by rw [← tracks.reads]; rfl) tracks.queued

theorem unlinkTimer (tracks : Tracks tracking state plain) (task : Word) :
    Tracks tracking (state.unlinkTimer task) (plain.unlinkTimer task) :=
  tracking.unlinkTimer task tracks

theorem linkTimer (tracks : Tracks tracking state plain) {entry : Option Word} {task : Word}
    (held : ∀ x ∈ entry, x ∈ plain.timerList) (unlisted : task ∉ plain.timerList) :
    Tracks tracking (state.linkTimer entry task) (plain.linkTimer entry task) :=
  tracking.linkTimer tracks held unlisted

theorem listTask (tracks : Tracks tracking state plain) {task : Word}
    (unlisted : task ∉ plain.taskList) :
    Tracks tracking (state.listTask task) (plain.listTask task) :=
  tracking.listTask tracks unlisted

theorem unlistTask (tracks : Tracks tracking state plain) (task : Word) :
    Tracks tracking (state.unlistTask task) (plain.unlistTask task) :=
  tracking.unlistTask task tracks

theorem queueRemove (tracks : Tracks tracking state plain) (task : Word) :
    Tracks tracking (schedQueueRemove task state) (schedQueueRemove task plain) :=
  tracking.queueRemove task tracks

theorem queuePush (tracks : Tracks tracking state plain) (task : Word) (queue : QueueId)
    (unqueued : (plain.whereabouts task).currentQueue = none) :
    Tracks tracking (schedQueuePush queue task state) (schedQueuePush queue task plain) :=
  tracking.queuePush task queue tracks unqueued

theorem reprioritize (tracks : Tracks tracking state plain) (task : Word) (newPriority : Nat) :
    Tracks tracking (schedQueueReprioritize task newPriority state)
      (schedQueueReprioritize task newPriority plain) :=
  tracking.reprioritize task newPriority tracks

theorem initTask (tracks : Tracks tracking state plain) (placed : Placed plain) {task : Word}
    (fresh : (plain.task task).state = .terminated) (descriptor : TaskDescriptor) :
    Tracks tracking (schedulerInitTask task descriptor state)
      (schedulerInitTask task descriptor plain) :=
  tracking.initTask descriptor tracks placed fresh

theorem futexInit (tracks : Tracks tracking state plain) {futex value flags : Word}
    (empty : plain.queue (.waiters futex) = []) :
    Tracks tracking (schedulerFutexInit futex value flags state)
      (schedulerFutexInit futex value flags plain) :=
  tracking.futexInit tracks empty

theorem task (tracks : Tracks tracking state plain) : plain.task = state.task := by
  rw [← tracks.reads]
  rfl

theorem futex (tracks : Tracks tracking state plain) : plain.futex = state.futex := by
  rw [← tracks.reads]
  rfl

theorem coreLocal (tracks : Tracks tracking state plain) : plain.coreLocal = state.coreLocal := by
  rw [← tracks.reads]
  rfl

theorem locked (tracks : Tracks tracking state plain) : plain.locked = state.locked := by
  rw [← tracks.reads]
  rfl

theorem timerExpires (tracks : Tracks tracking state plain) : plain.timerExpires = state.timerExpires := by
  rw [← tracks.reads]
  rfl

theorem sliceDuration (tracks : Tracks tracking state plain) :
    plain.sliceDuration = state.sliceDuration := by
  rw [← tracks.reads]
  rfl

theorem spinFree (tracks : Tracks tracking state plain) : plain.spinFree = state.spinFree := by
  rw [← tracks.reads]
  rfl

theorem getTicks [NeZero cores] (tracks : Tracks tracking state plain) :
    schedulerGetTicks plain = schedulerGetTicks state := by
  rw [← tracks.reads]
  rfl

theorem ownedFutexes (tracks : Tracks tracking state plain) : plain.ownedFutexes = state.ownedFutexes := by
  rw [← tracks.reads]
  rfl

theorem futexValue (tracks : Tracks tracking state plain) : plain.futexValue = state.futexValue := by
  rw [← tracks.reads]
  rfl

theorem queue (tracks : Tracks tracking state plain) : plain.queue = state.queue := by
  rw [← tracks.reads]
  rfl

theorem timerList (tracks : Tracks tracking state plain) : plain.timerList = state.timerList := by
  rw [← tracks.reads]
  rfl

theorem getCurrent (tracks : Tracks tracking state plain) (core : Fin cores) :
    schedGetCurrent core plain = schedGetCurrent core state := by
  rw [← tracks.reads]
  rfl

theorem taskAlive (tracks : Tracks tracking state plain) (task : Word) :
    schedulerTaskAlive task plain = schedulerTaskAlive task state := by
  rw [← tracks.reads]
  rfl

theorem isRunning (tracks : Tracks tracking state plain) :
    schedulerIsRunning plain = schedulerIsRunning state := by
  rw [← tracks.reads]
  rfl

theorem map {Left Right : Type} {rel : Left → Right → Prop} {left : Option Left}
    {right : Option Right} (related : Option.Rel rel left right)
    {next : Left → State R cores} {nextPlain : Right → Plain cores}
    (tracks : ∀ left right, rel left right → Tracks tracking (next left) (nextPlain right)) :
    Option.Rel (Tracks tracking) (left.map next) (right.map nextPlain) := by
  cases related with
  | none => exact .none
  | some both => exact .some (tracks _ _ both)

theorem mapSame {Value : Type} {option : Option Value} {next : Value → State R cores}
    {nextPlain : Value → Plain cores} (tracks : ∀ value, Tracks tracking (next value) (nextPlain value)) :
    Option.Rel (Tracks tracking) (option.map next) (option.map nextPlain) := by
  cases option with
  | none => exact .none
  | some value => exact .some (tracks value)

theorem closestTimer (tracks : Tracks tracking state plain) :
    Tracks tracking { state with timerExpires := closestTimer state }
      { plain with timerExpires := PicoToolkit.closestTimer plain } :=
  tracks.quiet rfl rfl rfl (fun _ => rfl) (by rw [← tracks.reads]; rfl) tracks.queued

theorem timerRemove (tracks : Tracks tracking state plain) (task : Word) :
    Tracks tracking (schedulerTimerRemove task state) (schedulerTimerRemove task plain) :=
  (tracks.unlinkTimer task).closestTimer

theorem laterTimer (tracks : Tracks tracking state plain) (task : Word) :
    laterTimer task plain = PicoToolkit.laterTimer task state := by
  simp only [PicoToolkit.laterTimer, tracks.timerList, tracks.task]

theorem timerPush [NeZero cores] (tracks : Tracks tracking state plain) (task delay : Word) :
    Tracks tracking (schedulerTimerPush task delay state) (schedulerTimerPush task delay plain) := by
  have unlinked := tracks.unlinkTimer task
  have timed := unlinked.setTask task (fun entry =>
    { entry with timerExpires := schedulerGetTicks (state.unlinkTimer task) + delay }) rfl rfl
  simp only [schedulerTimerPush, unlinked.getTicks]
  have entry := timed.laterTimer task
  rw [entry]
  refine (timed.linkTimer ?_ ?_).closestTimer
  · rw [← entry]
    exact fun _ => List.mem_of_find?_eq_some
  · simp [State.timerList, State.setTask, State.unlinkTimer]

theorem timerStart [NeZero cores] (tracks : Tracks tracking state plain) (task ticks : Word) :
    Tracks tracking (schedulerTimerStart task ticks state) (schedulerTimerStart task ticks plain) := by
  simp only [schedulerTimerStart]
  split
  · exact tracks.timerPush task ticks
  · exact tracks

theorem setTaskState (tracks : Tracks tracking state plain) (task : Word) (new : TaskState) :
    Tracks tracking (setTaskState task new state) (setTaskState task new plain) :=
  tracks.setTask task _ rfl rfl

theorem setTaskStateOff (tracks : Tracks tracking state plain) (task : Word) (new : TaskState) :
    Tracks tracking (setTaskStateOff task new state) (setTaskStateOff task new plain) :=
  tracks.setTask task _ rfl rfl

theorem setResult (tracks : Tracks tracking state plain) (task : Word) (result : Result) :
    Tracks tracking (setResult task result state) (setResult task result plain) :=
  tracks.setTask task _ rfl rfl

theorem returnResult (tracks : Tracks tracking state plain) (core : Fin cores) (result : Result) :
    Tracks tracking (returnResult core result state) (returnResult core result plain) := by
  simp only [PicoToolkit.returnResult, tracks.getCurrent]
  split
  · exact tracks
  · exact tracks.setResult _ result

theorem setCurrent (tracks : Tracks tracking state plain) (core : Fin cores) (current : Option Word) :
    Tracks tracking (schedSetCurrent core current state) (schedSetCurrent core current plain) :=
  tracks.setCore core _

theorem requestSwitch (tracks : Tracks tracking state plain) (core : Fin cores) :
    Tracks tracking (schedulerRequestSwitch core state) (schedulerRequestSwitch core plain) :=
  tracks.setCore core _

theorem queueEmpty (tracks : Tracks tracking state plain) (queue : QueueId) :
    schedQueueEmpty queue plain = schedQueueEmpty queue state := by
  rw [schedQueueEmpty, tracks.queue, schedQueueEmpty]

theorem highestPriority (tracks : Tracks tracking state plain) (queue : QueueId) :
    schedQueueHighestPriority queue plain = schedQueueHighestPriority queue state := by
  simp only [schedQueueHighestPriority, tracks.queue, tracks.task]

end Tracks

def ringTracking (cores : Nat) : Tracking Links cores where
  Rel := Follows
  reads follows := follows.reads
  queued follows := follows.queued
  quiet follows queues timers tasks _ reads queued := follows.quiet queues timers tasks reads queued
  unlinkTimer task follows := follows.unlinkTimer task
  linkTimer follows held unlisted := follows.linkTimer held unlisted
  listTask follows unlisted := follows.listTask unlisted
  unlistTask task follows := follows.unlistTask task
  queueRemove task follows := follows.queueRemove task
  queuePush task queue follows unqueued := follows.queuePush task queue unqueued
  reprioritize task newPriority follows := follows.reprioritize task newPriority
  initTask descriptor follows placed fresh := follows.initTask placed fresh descriptor
  futexInit follows empty := follows.futexInit empty

end PicoToolkit
