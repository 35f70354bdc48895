import PicoToolkit.Scheduler.Tracking

/-!
Every step of the scheduler on rings is a step of the scheduler on plain lists.
-/

namespace PicoToolkit

open Ring Transition Tag

variable {R : Type → Type → Type} [Store R] {cores : Nat} {tracking : Tracking R cores}
  {state : State R cores} {plain : Plain cores} {core : Fin cores}

theorem Tracks.createSvc (tracks : Tracks tracking state plain) {task : Word} (unlisted : task ∉ plain.taskList)
    (unqueued : (plain.whereabouts task).currentQueue = none) :
    Tracks tracking (schedulerCreateSvc core task state) (schedulerCreateSvc core task plain) := by
  have listed := tracks.listTask unlisted
  simp only [schedulerCreateSvc, listed.task]
  refine Tracks.returnResult ?_ core _
  split
  · exact listed.setTaskState task .suspended
  · have ready := (listed.setTaskState task .ready).queuePush task .readyQueue
      (by simp [unqueued])
    simp only [ready.getCurrent, ready.task, ready.isRunning]
    split
    · exact ready
    · split
      · exact ready.requestSwitch core
      · exact ready

theorem Tracks.suspendTask (tracks : Tracks tracking state plain) {current task : Word}
    (unqueued : (plain.whereabouts current).currentQueue = none) :
    Tracks tracking (schedulerSuspendTask current task state) (schedulerSuspendTask current task plain) := by
  simp only [schedulerSuspendTask]
  split
  · rename_i different
    refine Tracks.queuePush ?_ current .readyQueue (by simp [Ne.symm different, unqueued])
    refine Tracks.setTaskState ?_ current .ready
    refine Tracks.setTaskStateOff ?_ task .suspended
    exact (tracks.queueRemove task).timerRemove task
  · exact tracks.setTaskStateOff current .suspended

theorem Tracks.suspendSvc [NeZero cores] (tracks : Tracks tracking state plain) (placed : Placed plain)
    (task ticks : Word) :
    Option.Rel (Tracks tracking) (schedulerSuspendSvc core task ticks state)
      (schedulerSuspendSvc core task ticks plain) := by
  simp only [schedulerSuspendSvc, tracks.getCurrent, tracks.taskAlive]
  split
  · exact .none
  · rename_i current runs
    have unqueued := (placed.running_free ((tracks.getCurrent core).trans runs)).1
    split
    · refine .some (Tracks.requestSwitch (Tracks.setCurrent ?_ core none) core)
      refine Tracks.timerStart (Tracks.suspendTask ?_ ?_) task ticks
      · exact tracks.setResult current _
      · simpa using unqueued
    · exact .some (tracks.setResult current _)

theorem Tracks.resumeSvc (tracks : Tracks tracking state plain) (task : Word) :
    Tracks tracking (schedulerResumeSvc core task state) (schedulerResumeSvc core task plain) := by
  have removed := (tracks.timerRemove task).queueRemove task
  simp only [schedulerResumeSvc, tracks.taskAlive, tracks.task, removed.task]
  split
  · refine Tracks.requestSwitch ?_ core
    split
    · refine Tracks.returnResult (Tracks.queuePush (Tracks.setTaskState ?_ task .ready)
        task .readyQueue ?_) core _
      · split
        · exact removed.setResult task _
        · exact removed
      · split
        · simp
        · simp
    · exact tracks.returnResult core _
  · exact tracks.returnResult core _

theorem Tracks.linkOwned (tracks : Tracks tracking state plain) (futex owner : Word) :
    Tracks tracking (schedulerLinkOwned futex owner state) (schedulerLinkOwned futex owner plain) := by
  simp only [schedulerLinkOwned, tracks.ownedFutexes]
  split
  · exact tracks
  · exact tracks.setOwned _

theorem Tracks.boostOwner (tracks : Tracks tracking state plain) (futex owner : Word) :
    Tracks tracking (schedulerBoostOwner futex owner state) (schedulerBoostOwner futex owner plain) := by
  have linked := tracks.linkOwned futex owner
  simp only [schedulerBoostOwner, linked.highestPriority, linked.task]
  split
  · exact linked.reprioritize owner _
  · exact linked

theorem Tracks.enqueueWaiter [NeZero cores] (tracks : Tracks tracking state plain) {current : Word}
    (unqueued : (plain.whereabouts current).currentQueue = none) (futex value ticks : Word) :
    Tracks tracking (schedulerEnqueueWaiter current futex value ticks state)
      (schedulerEnqueueWaiter current futex value ticks plain) := by
  simp only [schedulerEnqueueWaiter, tracks.futex]
  refine Tracks.queuePush (Tracks.setTaskStateOff (Tracks.timerStart ?_ current ticks) current
    .blocked) current (.waiters futex) (by simpa using unqueued)
  exact tracks.setMemory _ value

theorem Tracks.block [NeZero cores] (tracks : Tracks tracking state plain) {current : Word}
    (unqueued : (plain.whereabouts current).currentQueue = none) (futex value ticks : Word) :
    Option.Rel (Tracks tracking) (schedulerBlock current futex value ticks state)
      (schedulerBlock current futex value ticks plain) := by
  have waiting := tracks.enqueueWaiter unqueued futex value ticks
  simp only [schedulerBlock, waiting.futex, waiting.task]
  split
  · split
    · exact .some (waiting.boostOwner futex _)
    · exact .none
  · exact .some waiting

theorem Tracks.waitSvc [NeZero cores] (tracks : Tracks tracking state plain) (placed : Placed plain)
    (futex expected ticks : Word) :
    Option.Rel (Tracks tracking) (schedulerWaitSvc core futex expected ticks state)
      (schedulerWaitSvc core futex expected ticks plain) := by
  simp only [schedulerWaitSvc, tracks.getCurrent, tracks.futex]
  split
  · exact .none
  · rename_i current runs
    have unqueued := (placed.running_free ((tracks.getCurrent core).trans runs)).1
    have returned := tracks.setResult current (.value 0)
    simp only [returned.futexValue]
    split
    · refine Tracks.map (?_ : Option.Rel (Tracks tracking) _ _) fun _ _ after =>
        (after.setCurrent core none).requestSwitch core
      split
      · exact returned.block (by simpa using unqueued) futex _ ticks
      · exact .some ((returned.setTaskState current .ready).queuePush current .readyQueue
          (by simpa using unqueued))
    · exact .none

theorem Tracks.restoreOwner (tracks : Tracks tracking state plain) (futex : Word) :
    Option.Rel (Tracks tracking) (schedulerRestoreOwner futex state) (schedulerRestoreOwner futex plain) := by
  have removed := tracks.setOwned fun links => schedListRemove links (.node futex)
  simp only [schedulerRestoreOwner, tracks.futexValue, tracks.task, removed.ownedFutexes,
    removed.highestPriority, removed.task]
  split
  · exact Tracks.mapSame fun owned => removed.reprioritize _ _
  · exact .none

theorem Tracks.trackOwner (tracks : Tracks tracking state plain) (futex task : Word) :
    Tracks tracking (schedulerTrackOwner futex task state) (schedulerTrackOwner futex task plain) := by
  simp only [schedulerTrackOwner, tracks.futex]
  split
  · exact tracks.setMemory _ task
  · exact tracks

theorem Tracks.adopt (tracks : Tracks tracking state plain) (futex task : Word) :
    Tracks tracking (schedulerAdopt futex task state) (schedulerAdopt futex task plain) := by
  have added := tracks.setOwned fun links => schedListAdd links (.head task) (.node futex)
  simp only [schedulerAdopt, tracks.futex, tracks.queueEmpty, added.highestPriority]
  split
  · exact added.reprioritize task _
  · exact tracks

theorem Tracks.wakeWaiter (tracks : Tracks tracking state plain) (futex task : Word)
    (unqueued : (plain.whereabouts task).currentQueue = none) :
    Tracks tracking (schedulerWakeWaiter futex task state) (schedulerWakeWaiter futex task plain) := by
  have tracked := tracks.trackOwner futex task
  have still : ((schedulerAdopt futex task
      (schedulerTrackOwner futex task plain)).whereabouts task).currentQueue = none := by
    rw [whereabouts_adopt (tracked.queued task), whereabouts_trackOwner, unqueued]
  simp only [schedulerWakeWaiter]
  refine Tracks.queuePush (Tracks.setTaskState (Tracks.timerRemove ?_ task) task .ready) task
    .readyQueue (by simpa using still)
  exact tracked.adopt futex task

theorem Tracks.wakeWaiters (tracks : Tracks tracking state plain) (futex : Word) (all : Bool)
    (fuel woken : Nat) :
    Tracks tracking (schedulerWakeWaiters futex all fuel woken state).1
        (schedulerWakeWaiters futex all fuel woken plain).1 ∧
      (schedulerWakeWaiters futex all fuel woken state).2 =
        (schedulerWakeWaiters futex all fuel woken plain).2 := by
  induction fuel generalizing woken state plain with
  | zero => exact ⟨tracks, rfl⟩
  | succ fuel ih =>
      simp only [schedulerWakeWaiters, schedQueuePop, tracks.queue]
      cases (state.queue (.waiters futex)).head? with
      | none => exact ⟨tracks, rfl⟩
      | some task =>
          have woke := (tracks.queueRemove task).wakeWaiter futex task (by simp)
          simp only [Option.map_some, woke.futex]
          split
          · exact ⟨woke, rfl⟩
          · exact ih woke _

theorem Tracks.trackContention (tracks : Tracks tracking state plain) (futex : Word) :
    Tracks tracking (schedulerTrackContention futex state) (schedulerTrackContention futex plain) := by
  simp only [schedulerTrackContention, tracks.futex, tracks.queueEmpty, tracks.futexValue]
  split
  · split
    · exact tracks.setMemory _ _
    · exact tracks.setMemory _ _
  · exact tracks

theorem Tracks.restore (tracks : Tracks tracking state plain) (futex : Word) :
    Option.Rel (Tracks tracking) (schedulerRestore futex state) (schedulerRestore futex plain) := by
  simp only [schedulerRestore, tracks.futex]
  split
  · exact tracks.restoreOwner futex
  · exact .some tracks

theorem Tracks.wakeFutex (tracks : Tracks tracking state plain) (futex : Word) (all : Bool) :
    Option.Rel (fun left right => Tracks tracking left.1 right.1 ∧ left.2 = right.2)
      (schedulerWakeFutex futex all state) (schedulerWakeFutex futex all plain) := by
  have restored := tracks.restore futex
  simp only [schedulerWakeFutex]
  generalize schedulerRestore futex state = left at restored
  generalize schedulerRestore futex plain = right at restored
  cases restored with
  | none => exact .none
  | @some restored _ after =>
      simp only [Option.map_some, after.queue]
      have woke := after.wakeWaiters futex all (restored.queue (.waiters futex)).length 0
      exact .some ⟨woke.1.trackContention futex, woke.2⟩

theorem Tracks.wakeSvc (tracks : Tracks tracking state plain) (futex : Word) (all : Bool) :
    Option.Rel (Tracks tracking) (schedulerWakeSvc core futex all state)
      (schedulerWakeSvc core futex all plain) := by
  simp only [schedulerWakeSvc, tracks.futex]
  split
  · refine Tracks.map (tracks.wakeFutex futex all) ?_
    rintro ⟨left, _⟩ ⟨right, woken⟩ ⟨after, rfl⟩
    simp only
    split
    · exact (after.returnResult core _).requestSwitch core
    · exact after.returnResult core _
  · exact .none

theorem Tracks.terminateSvc (tracks : Tracks tracking state plain) (task : Word) :
    Tracks tracking (schedulerTerminateSvc core task state) (schedulerTerminateSvc core task plain) := by
  simp only [schedulerTerminateSvc, tracks.taskAlive, tracks.getCurrent]
  have cleaned := ((((tracks.returnResult core (.value 0)).setTaskStateOff task
    .terminated).queueRemove task).timerRemove task).unlistTask task
  split
  · split
    · exact (cleaned.setCurrent core none).requestSwitch core
    · exact cleaned
  · exact tracks.returnResult core _

theorem Tracks.prioritySvc (tracks : Tracks tracking state plain) (task : Word) (priority : Nat) :
    Tracks tracking (schedulerPrioritySvc core task priority state)
      (schedulerPrioritySvc core task priority plain) := by
  simp only [schedulerPrioritySvc, tracks.taskAlive]
  split
  · exact (((tracks.returnResult core _).setTask task _ rfl rfl).reprioritize task
      priority).requestSwitch core
  · exact tracks.returnResult core _

theorem Tracks.switchEnter (tracks : Tracks tracking state plain) (placed : Placed plain) :
    Tracks tracking (schedulerSwitchEnter core state) (schedulerSwitchEnter core plain) := by
  have cleared := (tracks.setCore core fun coreLocal => { coreLocal with pendSv := false }).setCurrent
    core none
  simp only [schedulerSwitchEnter, tracks.getCurrent, cleared.locked]
  split
  · exact cleared.setCore core _
  · rename_i task runs
    split
    · exact cleared.setCurrent core _
    · have unqueued := (placed.running_free ((tracks.getCurrent core).trans runs)).1
      refine Tracks.setCore (Tracks.queuePush (cleared.setTaskStateOff task .ready) task .readyQueue
        ?_) core _
      have unchanged : (plain.setCore core fun coreLocal =>
          { coreLocal with pendSv := false }).whereabouts task = plain.whereabouts task :=
        whereabouts_setCore_same core _ rfl rfl
      simpa [unchanged] using unqueued

theorem Tracks.switchDrain (tracks : Tracks tracking state plain) (index : Nat) (lastTask : Option Word) :
    Option.Rel (Tracks tracking) (schedulerSwitchDrain core index lastTask state)
      (schedulerSwitchDrain core index lastTask plain) := by
  simp only [schedulerSwitchDrain, tracks.coreLocal]
  have taken := tracks.setCore core fun coreLocal =>
    { coreLocal with
      deferredWake := Function.update coreLocal.deferredWake index none
      pc := .drain (index + 1) lastTask }
  split
  · split
    · exact .some taken
    · rename_i futex all found
      exact Tracks.map (taken.wakeFutex futex all) fun _ _ both => both.1.setCore core _
  · exact .some (tracks.setCore core _)

theorem Tracks.timerPop [NeZero cores] (tracks : Tracks tracking state plain) :
    Option.Rel (fun left right => left.1 = right.1 ∧ Tracks tracking left.2 right.2)
      (schedulerTimerPop state) (schedulerTimerPop plain) := by
  simp only [schedulerTimerPop, tracks.timerList, tracks.task, tracks.getTicks]
  split
  · exact .none
  · split
    · exact .some ⟨rfl, tracks.timerRemove _⟩
    · exact .none

theorem Tracks.switchTimers [NeZero cores] (tracks : Tracks tracking state plain)
    (lastTask : Option Word) :
    Tracks tracking (schedulerSwitchTimers core lastTask state)
      (schedulerSwitchTimers core lastTask plain) := by
  have popped := tracks.timerPop
  simp only [schedulerSwitchTimers]
  generalize schedulerTimerPop state = left at popped
  generalize schedulerTimerPop plain = right at popped
  cases popped with
  | none => exact tracks.setCore core _
  | @some left right both =>
      obtain ⟨expired, state⟩ := left
      obtain ⟨_, plain⟩ := right
      obtain ⟨rfl, after⟩ := both
      refine Tracks.queuePush (Tracks.setResult (Tracks.setTaskState ?_ expired .ready) expired _)
        expired .readyQueue (by simp)
      exact after.queueRemove expired

theorem Tracks.evict (tracks : Tracks tracking state plain) (task : Word) :
    Tracks tracking (schedulerEvict task state) (schedulerEvict task plain) :=
  ((((tracks.setTaskState task .terminated).setResult task _).queueRemove task).unlinkTimer
    task).unlistTask task

theorem Tracks.kickCores (tracks : Tracks tracking state plain) :
    Tracks tracking (schedulerKickCores core state) (schedulerKickCores core plain) := by
  refine tracks.quiet rfl rfl rfl (fun _ => rfl) (by rw [← tracks.reads]; rfl) fun task queue => ?_
  rw [whereabouts_kickCores]
  exact tracks.queued task queue

theorem Tracks.dispatch (tracks : Tracks tracking state plain) (task : Word) (lastTask : Option Word) :
    Tracks tracking (schedulerDispatch core task lastTask state)
      (schedulerDispatch core task lastTask plain) := by
  have running := tracks.setTask task (fun entry =>
    { entry with state := .running, core := core }) rfl rfl
  refine Tracks.kickCores ?_
  simp only [schedulerOccupy, running.sliceDuration]
  exact running.setCore core _

theorem Tracks.stop (tracks : Tracks tracking state plain) :
    Tracks tracking (schedulerStop core state) (schedulerStop core plain) := by
  have counted : Tracks tracking { state with running := state.running - 1 }
      { plain with running := plain.running - 1 } :=
    tracks.quiet rfl rfl rfl (fun _ => rfl) (by rw [← tracks.reads]; rfl) tracks.queued
  exact counted.setCore core fun coreLocal =>
    { coreLocal with schedulerInitialFrame := some (.value 0), pc := .outside }

theorem Tracks.switchIdle (tracks : Tracks tracking state plain) (lastTask : Option Word) :
    Tracks tracking (schedulerSwitchIdle core lastTask state) (schedulerSwitchIdle core lastTask plain) := by
  have viable : schedulerIsViable plain = schedulerIsViable state := by
    rw [← tracks.reads]
    rfl
  simp only [schedulerSwitchIdle, viable, tracks.coreLocal]
  split
  · exact tracks.stop
  · exact tracks.setCore core _

theorem Tracks.switchPick (tracks : Tracks tracking state plain) (lastTask : Option Word) :
    Tracks tracking (schedulerSwitchPick core lastTask state) (schedulerSwitchPick core lastTask plain) := by
  simp only [schedulerSwitchPick, schedQueuePop, tracks.queue, tracks.task]
  generalize List.find? _ _ = first
  cases first with
  | none => exact tracks.switchIdle lastTask
  | some task =>
      have removed := tracks.queueRemove task
      simp only [Option.map_some, removed.task]
      split
      · exact removed.dispatch task lastTask
      · exact (removed.evict task).switchIdle lastTask

theorem Tracks.switch [NeZero cores] (tracks : Tracks tracking state plain) :
    Option.Rel (Tracks tracking) (schedulerSwitch core state) (schedulerSwitch core plain) := by
  simp only [schedulerSwitch, tracks.coreLocal, tracks.spinFree]
  split
  · exact .none
  · exact tracks.switchDrain _ _
  · exact .some (tracks.switchTimers _)
  · exact .some (tracks.switchPick _)
  · split
    · exact .some (tracks.setCore core _)
    · exact .none

theorem Tracks.create (tracks : Tracks tracking state plain) (placed : Placed plain) {task : Word}
    {descriptor : TaskDescriptor} (possible : creatable core task descriptor plain) :
    Tracks tracking (schedulerCreate core task descriptor state)
      (schedulerCreate core task descriptor plain) := by
  simp only [creatable, Bool.and_eq_true, decide_eq_true_eq] at possible
  have fresh := possible.1.1.1.2
  have initialised := tracks.initTask placed fresh descriptor
  have unlisted : task ∉ (schedulerInitTask task descriptor plain).taskList := by
    intro listed
    exact (placed task).listed.mp listed fresh
  rw [schedulerCreate, schedulerCreate]
  split
  · exact ((initialised.listTask unlisted).setTask task _ rfl rfl).setCurrent core _
  · exact initialised.createSvc unlisted (by simp [whereabouts_initTask])

theorem Tracks.tick [NeZero cores] (tracks : Tracks tracking state plain) :
    Tracks tracking (schedulerTick core state) (schedulerTick core plain) := by
  have counted := tracks.setCore core fun coreLocal =>
    { coreLocal with ticks := coreLocal.ticks + 1 }
  have checked : Tracks tracking
      (schedulerTickTimers core (state.setCore core fun coreLocal =>
        { coreLocal with ticks := coreLocal.ticks + 1 }))
      (schedulerTickTimers core (plain.setCore core fun coreLocal =>
        { coreLocal with ticks := coreLocal.ticks + 1 })) := by
    simp only [schedulerTickTimers, counted.timerExpires, counted.getTicks]
    split
    · exact counted.requestSwitch core
    · exact counted
  have sliced := checked.setCore core fun coreLocal =>
    { coreLocal with sliceExpires := coreLocal.sliceExpires - 1 }
  simp only [schedulerTick, schedulerTickSlice, tracks.isRunning, checked.coreLocal,
    sliced.coreLocal]
  split
  · split
    · split
      · exact sliced.requestSwitch core
      · exact sliced
    · exact checked
  · exact tracks

theorem Tracks.futexWakeDeferred (tracks : Tracks tracking state plain) (futex : Word) (all : Bool) :
    Tracks tracking (schedulerFutexWakeDeferred core futex all state)
      (schedulerFutexWakeDeferred core futex all plain) := by
  simp only [schedulerFutexWakeDeferred, tracks.futex, tracks.coreLocal]
  split
  · exact tracks
  · split
    · exact tracks
    · exact (tracks.setCore core _).requestSwitch core

theorem Tracks.start (tracks : Tracks tracking state plain) :
    Tracks tracking (schedulerStart core state) (schedulerStart core plain) := by
  have counted : Tracks tracking { state with running := state.running + 1 }
      { plain with running := plain.running + 1 } :=
    tracks.quiet rfl rfl rfl (fun _ => rfl) (by rw [← tracks.reads]; rfl) tracks.queued
  exact (counted.setCore core fun coreLocal =>
    { coreLocal with schedulerInitialFrame := some (.value 0) }).requestSwitch core

theorem Tracks.yield (tracks : Tracks tracking state plain) :
    Tracks tracking (schedulerYield core state) (schedulerYield core plain) := by
  simp only [schedulerYield, tracks.locked]
  split
  · exact tracks
  · exact tracks.requestSwitch core

theorem Tracks.taskOrCurrent (tracks : Tracks tracking state plain) (task : Word) :
    taskOrCurrent core task plain = taskOrCurrent core task state := by
  simp only [PicoToolkit.taskOrCurrent, tracks.getCurrent]

theorem Tracks.sleep [NeZero cores] (tracks : Tracks tracking state plain) (placed : Placed plain)
    (ticks : Word) :
    Option.Rel (Tracks tracking) (schedulerSleep core ticks state) (schedulerSleep core ticks plain) := by
  simp only [schedulerSleep, tracks.taskOrCurrent]
  split
  · exact .some tracks.yield
  · exact tracks.suspendSvc placed _ ticks

theorem Tracks.suspend [NeZero cores] (tracks : Tracks tracking state plain) (placed : Placed plain)
    (task : Word) :
    Option.Rel (Tracks tracking) (schedulerSuspend core task state) (schedulerSuspend core task plain) := by
  simp only [schedulerSuspend, tracks.taskOrCurrent, tracks.getCurrent]
  split
  · exact .some (tracks.returnResult core _)
  · exact tracks.suspendSvc placed _ _

theorem Tracks.terminate (tracks : Tracks tracking state plain) (task : Word) :
    Tracks tracking (schedulerTerminate core task state) (schedulerTerminate core task plain) := by
  simp only [schedulerTerminate, tracks.taskOrCurrent, tracks.getCurrent]
  split
  · exact tracks.returnResult core _
  · exact tracks.terminateSvc _

theorem Tracks.setPriority (tracks : Tracks tracking state plain) (task : Word) (priority : Nat) :
    Tracks tracking (schedulerSetPriority core task priority state)
      (schedulerSetPriority core task priority plain) := by
  simp only [schedulerSetPriority, tracks.taskOrCurrent]
  split
  · exact tracks.returnResult core _
  · exact tracks.prioritySvc _ priority

theorem Tracks.inThread (tracks : Tracks tracking state plain) (core : Fin cores) :
    plain.inThread core = state.inThread core := by
  rw [← tracks.reads]
  rfl

theorem Tracks.creatable (tracks : Tracks tracking state plain) (task : Word)
    (descriptor : TaskDescriptor) :
    creatable core task descriptor plain = PicoToolkit.creatable core task descriptor state := by
  rw [← tracks.reads]
  rfl

theorem Tracks.ite {condition : Prop} [Decidable condition] {nextState : State R cores}
    {nextPlain : Plain cores} (tracks : condition → Tracks tracking nextState nextPlain) :
    Option.Rel (Tracks tracking) (if condition then some nextState else none)
      (if condition then some nextPlain else none) := by
  split
  · exact .some (tracks ‹_›)
  · exact .none

/-- The steps on rings and on lists are possible together, and lead to states that correspond. -/
theorem Tracks.step [NeZero cores] (tracks : Tracks tracking state plain) (placed : Placed plain)
    (action : Action cores) : Option.Rel (Tracks tracking) (step state action) (step plain action) := by
  cases action with
  | create core task descriptor =>
      simp only [PicoToolkit.step, tracks.creatable]
      exact Tracks.ite fun possible =>
        tracks.create placed ((tracks.creatable task descriptor).trans possible)
  | start core =>
      simp only [PicoToolkit.step, tracks.coreLocal]
      exact Tracks.ite fun _ => tracks.start
  | yield core =>
      simp only [PicoToolkit.step, tracks.inThread]
      exact Tracks.ite fun _ => tracks.yield
  | sleep core ticks =>
      simp only [PicoToolkit.step, tracks.inThread]
      split
      · exact tracks.sleep placed ticks
      · exact .none
  | suspend core task =>
      simp only [PicoToolkit.step, tracks.inThread]
      split
      · exact tracks.suspend placed task
      · exact .none
  | resume core task =>
      simp only [PicoToolkit.step, tracks.inThread]
      exact Tracks.ite fun _ => tracks.resumeSvc task
  | terminate core task =>
      simp only [PicoToolkit.step, tracks.inThread]
      exact Tracks.ite fun _ => tracks.terminate task
  | setPriority core task priority =>
      simp only [PicoToolkit.step, tracks.inThread]
      exact Tracks.ite fun _ => tracks.setPriority task priority
  | setFlags task mask =>
      simp only [PicoToolkit.step, tracks.task]
      exact Tracks.ite fun _ => tracks.setTask task _ rfl rfl
  | clearFlags task mask =>
      simp only [PicoToolkit.step, tracks.task]
      exact Tracks.ite fun _ => tracks.setTask task _ rfl rfl
  | futexInit futex value flags =>
      simp only [PicoToolkit.step, tracks.queue]
      exact Tracks.ite fun empty =>
        tracks.futexInit ((congrFun tracks.queue _).trans empty)
  | futexWait core futex value ticks =>
      simp only [PicoToolkit.step, tracks.inThread]
      split
      · exact tracks.waitSvc placed futex value ticks
      · exact .none
  | futexWake core futex all =>
      simp only [PicoToolkit.step, tracks.inThread]
      split
      · exact tracks.wakeSvc futex all
      · exact .none
  | lock =>
      refine .some (tracks.quiet rfl rfl rfl (fun _ => rfl) ?_ tracks.queued)
      rw [← tracks.reads]
      rfl
  | unlock =>
      refine .some (tracks.quiet rfl rfl rfl (fun _ => rfl) ?_ tracks.queued)
      rw [← tracks.reads]
      rfl
  | lockRestore lock =>
      refine .some (tracks.quiet rfl rfl rfl (fun _ => rfl) ?_ tracks.queued)
      rw [← tracks.reads]
      rfl
  | store address value => exact .some (tracks.setMemory address value)
  | smashStack task => exact .some (tracks.setTask task _ rfl rfl)
  | tick core => exact .some tracks.tick
  | interruptWake core futex all =>
      simp only [PicoToolkit.step, tracks.futex]
      exact Tracks.ite fun _ => tracks.futexWakeDeferred futex all
  | switchEnter core =>
      simp only [PicoToolkit.step, tracks.coreLocal, tracks.spinFree]
      exact Tracks.ite fun _ => tracks.switchEnter placed
  | switchStep core => exact tracks.switch

theorem scheduler_simulation (cores : Nat) [NeZero cores] :
    Simulation (scheduler cores) (abstractScheduler cores)
      (fun state => Follows state state.plain) State.plain := by
  refine ⟨?_, ?_⟩
  · rintro state ⟨memory, sliceDuration, rfl⟩
    have empty : ∀ H : Type, schedListEntries (Links.empty : Links H Word) = fun _ => [] :=
      fun _ => entries_eq Links.empty_represents
    have reads : ({ schedulerInit Links.empty Links.empty Links.empty with
          memory := memory, sliceDuration := sliceDuration } : State Links cores).plain =
        { schedulerInit (fun _ => []) (fun _ => []) (fun _ => []) with
          memory := memory, sliceDuration := sliceDuration } := by
      simp only [State.plain, schedulerInit, empty]
    have initial : (abstractScheduler cores).initial
        { schedulerInit (fun _ => []) (fun _ => []) (fun _ => []) with
          memory := memory, sliceDuration := sliceDuration } :=
      ⟨memory, sliceDuration, rfl⟩
    rw [reads]
    refine ⟨⟨Links.empty_represents, Links.empty_represents, Links.empty_represents, reads, ?_⟩,
      initial⟩
    exact fun task => (Placed.initial initial task).queued
  · intro state action next follows reached done
    have tracks : Tracks (ringTracking cores) state state.plain := follows
    have related := tracks.step (placed_of_reachable reached) action
    change step state action = some next at done
    rw [done] at related
    change _ ∧ step state.plain action = some next.plain
    generalize step state.plain action = after at related ⊢
    cases related with
    | @some _ plain both =>
        have followsNext : Follows next plain := both
        rw [followsNext.reads]
        exact ⟨followsNext, rfl⟩

end PicoToolkit
