import PicoToolkit.Library.Transition
import PicoToolkit.Scheduler.Switch

/-!
The scheduler as a transition system.  Any core may take the next step: the thread it runs calls a
function of the interface, an interrupt handler runs, or `scheduler_switch` moves on.
-/

namespace PicoToolkit

open Ring Tag

variable {R : Type → Type → Type} [Store R] {cores : Nat}

structure TaskDescriptor where
  context : Word := 0
  flags : Word := 0
  priority : Nat := 0
  affinity : Nat := 0

/-- The control block that `scheduler_create` sets up on a stack. -/
def newTask (descriptor : TaskDescriptor) : Task where
  state := .terminated
  core := uint32Max
  affinity := if flagSet descriptor.flags schedulerCoreAffinity then descriptor.affinity else uint32Max
  basePriority := descriptor.priority
  currentPriority := descriptor.priority
  timerExpires := BitVec.ofNat 32 uint32Max
  currentQueue := none
  flags := descriptor.flags
  stackMarker := true
  r0 := .value descriptor.context
  marker := true

/-- The part of `scheduler_create` that initialises the control block. -/
def schedulerInitTask (task : Word) (descriptor : TaskDescriptor) (state : State R cores) :
    State R cores :=
  let state := state.setTask task fun _ => newTask descriptor
  { state with
    timers := Store.initNode state.timers task
    tasks := Store.initNode state.tasks task
    queues := Store.initNode state.queues task
    ownedFutexes := schedListInit state.ownedFutexes (.head task) }

/-- The task that runs already when it is created: it only runs on the core it was created on. -/
def schedulerCreatePrimordial (core : Fin cores) (task : Word) (state : State R cores) :
    State R cores :=
  let state := state.listTask task
  let state := state.setTask task fun entry =>
    { entry with
      flags := entry.flags ||| schedulerCoreAffinity
      affinity := core
      state := .running
      core := core }
  schedSetCurrent core (some task) state

def schedulerCreate (core : Fin cores) (task : Word) (descriptor : TaskDescriptor)
    (state : State R cores) : State R cores :=
  let state := schedulerInitTask task descriptor state
  if flagSet descriptor.flags schedulerPrimordialTask then schedulerCreatePrimordial core task state
  else schedulerCreateSvc core task state

/-- The state that `scheduler_init` leaves, when no task and no futex has been set up yet. -/
def schedulerInit (queues : R QueueId Word) (timers tasks : R Unit Word) : State R cores where
  task _ := {}
  futex _ := {}
  memory _ := 0
  coreLocal _ := {}
  queues := queues
  timers := timers
  tasks := tasks
  ownedFutexes := Links.empty
  timerExpires := BitVec.ofNat 32 uint32Max
  sliceDuration := schedulerTimeSlice
  locked := 0
  running := 0

def taskOrCurrent (core : Fin cores) (task : Word) (state : State R cores) : Word :=
  if task = 0 then (schedGetCurrent core state).getD 0 else task

def schedulerYield (core : Fin cores) (state : State R cores) : State R cores :=
  if state.locked < 0 then state else schedulerYieldSvc core state

def schedulerSleep [NeZero cores] (core : Fin cores) (ticks : Word) (state : State R cores) :
    Option (State R cores) :=
  if ticks = 0 then some (schedulerYield core state)
  else schedulerSuspendSvc core (taskOrCurrent core 0 state) ticks state

def schedulerSuspend [NeZero cores] (core : Fin cores) (task : Word) (state : State R cores) :
    Option (State R cores) :=
  let task := taskOrCurrent core task state
  if cores > 1 ∧ some task ≠ schedGetCurrent core state then
    some (returnResult core (.error .einval) state)
  else schedulerSuspendSvc core task schedulerWaitForever state

def schedulerResume (core : Fin cores) (task : Word) (state : State R cores) : State R cores :=
  schedulerResumeSvc core task state

def schedulerTerminate (core : Fin cores) (task : Word) (state : State R cores) :
    State R cores :=
  let task := taskOrCurrent core task state
  if cores > 1 ∧ some task ≠ schedGetCurrent core state then
    returnResult core (.error .einval) state
  else schedulerTerminateSvc core task state

def schedulerFutexInit (futex value flags : Word) (state : State R cores) : State R cores :=
  { state with
    futex := Function.update state.futex futex { value := value, flags := flags, marker := true }
    queues := Store.initHead state.queues (.waiters futex)
    ownedFutexes := schedListInit state.ownedFutexes (.node futex) }

def schedulerSetPriority (core : Fin cores) (task : Word) (priority : Nat)
    (state : State R cores) : State R cores :=
  if priority > schedulerMinTaskPriority then returnResult core (.error .einval) state
  else schedulerPrioritySvc core (taskOrCurrent core task state) priority state

def schedulerSetFlags (task mask : Word) (state : State R cores) : State R cores :=
  state.setTask task fun entry => { entry with flags := entry.flags ||| mask }

def schedulerClearFlags (task mask : Word) (state : State R cores) : State R cores :=
  state.setTask task fun entry => { entry with flags := entry.flags &&& ~~~mask }

/-- The service call of `scheduler_run`: the caller's frame is kept and PendSV takes over. -/
def schedulerStart (core : Fin cores) (state : State R cores) : State R cores :=
  let state := { state with running := state.running + 1 }
  let state := state.setCore core fun coreLocal =>
    { coreLocal with schedulerInitialFrame := some (.value 0) }
  schedulerRequestSwitch core state

inductive Action (cores : Nat) where
  | create (core : Fin cores) (task : Word) (descriptor : TaskDescriptor)
  | start (core : Fin cores)
  | yield (core : Fin cores)
  | sleep (core : Fin cores) (ticks : Word)
  | suspend (core : Fin cores) (task : Word)
  | resume (core : Fin cores) (task : Word)
  | terminate (core : Fin cores) (task : Word)
  | setPriority (core : Fin cores) (task : Word) (priority : Nat)
  | setFlags (task mask : Word)
  | clearFlags (task mask : Word)
  | futexInit (futex value flags : Word)
  | futexWait (core : Fin cores) (futex value ticks : Word)
  | futexWake (core : Fin cores) (futex : Word) (all : Bool)
  | lock
  | unlock
  | lockRestore (lock : Int)
  | store (address value : Word)
  | smashStack (task : Word)
  | tick (core : Fin cores)
  | interruptWake (core : Fin cores) (futex : Word) (all : Bool)
  | switchEnter (core : Fin cores)
  | switchStep (core : Fin cores)

namespace State

/-- No core is inside `scheduler_switch` with the spin lock held. -/
def spinFree (state : State R cores) : Bool :=
  decide (∀ core, (state.coreLocal core).pc.holdsSpinLock = false)

/-- The core runs a task, outside of `scheduler_switch`, and a service can take the spin lock. -/
def inThread (state : State R cores) (core : Fin cores) : Bool :=
  (state.currentTask core).isSome && decide ((state.coreLocal core).pc = .outside) && state.spinFree

end State

def creatable (core : Fin cores) (task : Word) (descriptor : TaskDescriptor)
    (state : State R cores) : Bool :=
  decide (task ≠ 0) && decide (Untagged task) && decide ((state.task task).state = .terminated) &&
    decide ((state.coreLocal core).pc = .outside) && state.spinFree &&
    if flagSet descriptor.flags schedulerPrimordialTask then (state.currentTask core).isNone
    else (state.currentTask core).isSome || decide (state.running = 0)

def schedulerSwitch [NeZero cores] (core : Fin cores) (state : State R cores) :
    Option (State R cores) :=
  match (state.coreLocal core).pc with
  | .outside => none
  | .drain index lastTask => schedulerSwitchDrain core index lastTask state
  | .timers lastTask => some (schedulerSwitchTimers core lastTask state)
  | .pick lastTask => some (schedulerSwitchPick core lastTask state)
  | .idle lastTask =>
      if state.spinFree then some (schedulerIdleReturn core lastTask state) else none

def step [NeZero cores] (state : State R cores) : Action cores → Option (State R cores)
  | .create core task descriptor =>
      if creatable core task descriptor state then some (schedulerCreate core task descriptor state)
      else none
  | .start core =>
      if (state.coreLocal core).pc = .outside ∧ (state.coreLocal core).schedulerInitialFrame = none
      then some (schedulerStart core state) else none
  | .yield core => if state.inThread core then some (schedulerYield core state) else none
  | .sleep core ticks => if state.inThread core then schedulerSleep core ticks state else none
  | .suspend core task => if state.inThread core then schedulerSuspend core task state else none
  | .resume core task =>
      if state.inThread core ∧ task ≠ 0 then some (schedulerResume core task state) else none
  | .terminate core task =>
      if state.inThread core then some (schedulerTerminate core task state) else none
  | .setPriority core task priority =>
      if state.inThread core then some (schedulerSetPriority core task priority state) else none
  | .setFlags task mask =>
      if (state.task task).marker then some (schedulerSetFlags task mask state) else none
  | .clearFlags task mask =>
      if (state.task task).marker then some (schedulerClearFlags task mask state) else none
  | .futexInit futex value flags =>
      if state.queue (.waiters futex) = [] then some (schedulerFutexInit futex value flags state)
      else none
  | .futexWait core futex value ticks =>
      if state.inThread core then schedulerWaitSvc core futex value ticks state else none
  | .futexWake core futex all =>
      if state.inThread core then schedulerWakeSvc core futex all state else none
  | .lock => some { state with locked := state.locked - 1 }
  | .unlock => some { state with locked := state.locked + 1 }
  | .lockRestore lock => some { state with locked := lock }
  | .store address value => some (state.setMemory address value)
  | .smashStack task =>
      some (state.setTask task fun entry => { entry with stackMarker := false })
  | .tick core => some (schedulerTick core state)
  | .interruptWake core futex all =>
      if (state.futex futex).marker then some (schedulerFutexWakeDeferred core futex all state)
      else none
  | .switchEnter core =>
      if (state.coreLocal core).pc = .outside ∧ (state.coreLocal core).pendSv ∧ state.spinFree then
        some (schedulerSwitchEnter core state)
      else none
  | .switchStep core => schedulerSwitch core state

inductive SchedulerSteps [NeZero cores] (state : State R cores) : Action cores → State R cores → Prop
  | create (core task descriptor) (possible : creatable core task descriptor state = true) :
      SchedulerSteps state (.create core task descriptor) (schedulerCreate core task descriptor state)
  | start (core) (outside : (state.coreLocal core).pc = .outside)
      (first : (state.coreLocal core).schedulerInitialFrame = none) :
      SchedulerSteps state (.start core) (schedulerStart core state)
  | yield (core) (inThread : state.inThread core = true) :
      SchedulerSteps state (.yield core) (schedulerYield core state)
  | sleep (core ticks) {next} (inThread : state.inThread core = true)
      (done : schedulerSleep core ticks state = some next) :
      SchedulerSteps state (.sleep core ticks) next
  | suspend (core task) {next} (inThread : state.inThread core = true)
      (done : schedulerSuspend core task state = some next) :
      SchedulerSteps state (.suspend core task) next
  | resume (core task) (inThread : state.inThread core = true) (nonzero : task ≠ 0) :
      SchedulerSteps state (.resume core task) (schedulerResume core task state)
  | terminate (core task) (inThread : state.inThread core = true) :
      SchedulerSteps state (.terminate core task) (schedulerTerminate core task state)
  | setPriority (core task priority) (inThread : state.inThread core = true) :
      SchedulerSteps state (.setPriority core task priority)
        (schedulerSetPriority core task priority state)
  | setFlags (task mask) (marked : (state.task task).marker = true) :
      SchedulerSteps state (.setFlags task mask) (schedulerSetFlags task mask state)
  | clearFlags (task mask) (marked : (state.task task).marker = true) :
      SchedulerSteps state (.clearFlags task mask) (schedulerClearFlags task mask state)
  | futexInit (futex value flags) (empty : state.queue (.waiters futex) = []) :
      SchedulerSteps state (.futexInit futex value flags) (schedulerFutexInit futex value flags state)
  | futexWait (core futex value ticks) {next} (inThread : state.inThread core = true)
      (done : schedulerWaitSvc core futex value ticks state = some next) :
      SchedulerSteps state (.futexWait core futex value ticks) next
  | futexWake (core futex all) {next} (inThread : state.inThread core = true)
      (done : schedulerWakeSvc core futex all state = some next) :
      SchedulerSteps state (.futexWake core futex all) next
  | lock : SchedulerSteps state .lock { state with locked := state.locked - 1 }
  | unlock : SchedulerSteps state .unlock { state with locked := state.locked + 1 }
  | lockRestore (lock) : SchedulerSteps state (.lockRestore lock) { state with locked := lock }
  | store (address value) : SchedulerSteps state (.store address value) (state.setMemory address value)
  | smashStack (task) :
      SchedulerSteps state (.smashStack task)
        (state.setTask task fun entry => { entry with stackMarker := false })
  | tick (core) : SchedulerSteps state (.tick core) (schedulerTick core state)
  | interruptWake (core futex all) (marked : (state.futex futex).marker = true) :
      SchedulerSteps state (.interruptWake core futex all)
        (schedulerFutexWakeDeferred core futex all state)
  | switchEnter (core) (outside : (state.coreLocal core).pc = .outside)
      (pending : (state.coreLocal core).pendSv = true) (free : state.spinFree = true) :
      SchedulerSteps state (.switchEnter core) (schedulerSwitchEnter core state)
  | switchStep (core) {next} (done : schedulerSwitch core state = some next) :
      SchedulerSteps state (.switchStep core) next

theorem schedulerSteps [NeZero cores] {state next : State R cores} {action : Action cores}
    (done : step state action = some next) : SchedulerSteps state action next := by
  cases action with
  | create core task descriptor =>
      simp only [step, Option.ite_none_right_eq_some, Option.some_inj] at done
      obtain ⟨possible, rfl⟩ := done
      exact .create core task descriptor possible
  | start core =>
      simp only [step, Option.ite_none_right_eq_some, Option.some_inj] at done
      obtain ⟨⟨outside, first⟩, rfl⟩ := done
      exact .start core outside first
  | yield core =>
      simp only [step, Option.ite_none_right_eq_some, Option.some_inj] at done
      obtain ⟨inThread, rfl⟩ := done
      exact .yield core inThread
  | sleep core ticks =>
      simp only [step, Option.ite_none_right_eq_some] at done
      exact .sleep core ticks done.1 done.2
  | suspend core task =>
      simp only [step, Option.ite_none_right_eq_some] at done
      exact .suspend core task done.1 done.2
  | resume core task =>
      simp only [step, Option.ite_none_right_eq_some, Option.some_inj] at done
      obtain ⟨⟨inThread, nonzero⟩, rfl⟩ := done
      exact .resume core task inThread nonzero
  | terminate core task =>
      simp only [step, Option.ite_none_right_eq_some, Option.some_inj] at done
      obtain ⟨inThread, rfl⟩ := done
      exact .terminate core task inThread
  | setPriority core task priority =>
      simp only [step, Option.ite_none_right_eq_some, Option.some_inj] at done
      obtain ⟨inThread, rfl⟩ := done
      exact .setPriority core task priority inThread
  | setFlags task mask =>
      simp only [step, Option.ite_none_right_eq_some, Option.some_inj] at done
      obtain ⟨marked, rfl⟩ := done
      exact .setFlags task mask marked
  | clearFlags task mask =>
      simp only [step, Option.ite_none_right_eq_some, Option.some_inj] at done
      obtain ⟨marked, rfl⟩ := done
      exact .clearFlags task mask marked
  | futexInit futex value flags =>
      simp only [step, Option.ite_none_right_eq_some, Option.some_inj] at done
      obtain ⟨empty, rfl⟩ := done
      exact .futexInit futex value flags empty
  | futexWait core futex value ticks =>
      simp only [step, Option.ite_none_right_eq_some] at done
      exact .futexWait core futex value ticks done.1 done.2
  | futexWake core futex all =>
      simp only [step, Option.ite_none_right_eq_some] at done
      exact .futexWake core futex all done.1 done.2
  | lock =>
      cases done
      exact .lock
  | unlock =>
      cases done
      exact .unlock
  | lockRestore lock =>
      cases done
      exact .lockRestore lock
  | store address value =>
      cases done
      exact .store address value
  | smashStack task =>
      cases done
      exact .smashStack task
  | tick core =>
      cases done
      exact .tick core
  | interruptWake core futex all =>
      simp only [step, Option.ite_none_right_eq_some, Option.some_inj] at done
      obtain ⟨marked, rfl⟩ := done
      exact .interruptWake core futex all marked
  | switchEnter core =>
      simp only [step, Option.ite_none_right_eq_some, Option.some_inj] at done
      obtain ⟨⟨outside, pending, free⟩, rfl⟩ := done
      exact .switchEnter core outside pending free
  | switchStep core => exact .switchStep core done

omit [Store R] in
theorem State.exists_current {state : State R cores} {core : Fin cores}
    (inThread : state.inThread core = true) : ∃ current, state.currentTask core = some current := by
  simp only [State.inThread, Bool.and_eq_true] at inThread
  exact Option.isSome_iff_exists.mp inThread.1.1

open Transition in
def scheduler (cores : Nat) [NeZero cores] : System (State Links cores) (Action cores) where
  initial state := ∃ memory sliceDuration,
    state = { schedulerInit Links.empty Links.empty Links.empty with
      memory := memory, sliceDuration := sliceDuration }
  step := step

/-- The state after `scheduler_init`, on cleared memory. -/
def bootState (cores : Nat) [NeZero cores] : State Links cores :=
  { schedulerInit Links.empty Links.empty Links.empty with
    memory := fun _ => 0
    sliceDuration := schedulerTimeSlice }

theorem initial_bootState (cores : Nat) [NeZero cores] :
    (scheduler cores).initial (bootState cores) := ⟨_, _, rfl⟩

/-- A pass of `scheduler_switch` that finds no deferred wake and no expired timer. -/
def switchPass : List (Action 1) := [.switchEnter 0, .switchStep 0, .switchStep 0, .switchStep 0]

def oneRunner : List (Action 1) :=
  [Action.create 0 0x1000 { flags := schedulerPrimordialTask, priority := 32 },
    .create 0 0x2000 { priority := 31 }, .start 0] ++ switchPass

open Transition in
def abstractScheduler (cores : Nat) [NeZero cores] :
    System (State Family cores) (Action cores) where
  initial state := ∃ memory sliceDuration,
    state = { schedulerInit (fun _ => []) (fun _ => []) (fun _ => []) with
      memory := memory, sliceDuration := sliceDuration }
  step := step

end PicoToolkit
