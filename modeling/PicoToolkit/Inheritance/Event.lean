import PicoToolkit.Inheritance.Projection
import PicoToolkit.Scheduler.Simulation

/-!
Every step of the scheduler is one event of the view of the futexes.
-/

namespace PicoToolkit

open Ring Tag Transition

section

variable {R : Type → Type → Type} [Store R] {cores : Nat}

/-- The task whose timer `scheduler_switch` finds expired. -/
def expiredTask [NeZero cores] (state : State R cores) : Option Word :=
  state.timerList.head?.filter fun task =>
    decide ((state.task task).timerExpires ≤ schedulerGetTicks state)

/-- What `scheduler_switch` does next on a core, as far as futexes are concerned. -/
def switchEvent [NeZero cores] (core : Fin cores) (state : State R cores) : Event :=
  let coreLocal := state.coreLocal core
  match coreLocal.pc with
  | .drain index _ =>
      if coreLocal.takenWakeCounter ≠ coreLocal.givenWakeCounter ∧
          index < schedulerMaxDeferedWake then
        match coreLocal.deferredWake index with
        | none => .quiet
        | some (futex, all) => .wake futex all
      else .quiet
  | .timers _ => (expiredTask state).elim .quiet .depart
  | .pick _ =>
      match (state.queue .readyQueue).find? fun task => (state.task task).eligible core with
      | none => .quiet
      | some task => if schedulerCheckStack (state.task task) then .quiet else .exit task
  | _ => .quiet

def event [NeZero cores] (state : State R cores) : Action cores → Event
  | .create _ task descriptor => .create task descriptor.priority
  | .suspend core task =>
      if cores > 1 then .quiet else .depart (taskOrCurrent core task state)
  | .resume _ task => .depart task
  | .terminate core task =>
      let task := taskOrCurrent core task state
      if cores > 1 ∧ some task ≠ schedGetCurrent core state then .quiet else .exit task
  | .setPriority core task priority =>
      let task := taskOrCurrent core task state
      if priority ≤ schedulerMinTaskPriority ∧ task ∈ state.taskList then .setPriority task priority
      else .quiet
  | .futexInit futex value flags => .initFutex futex value flags
  | .futexWait core futex value _ =>
      match schedGetCurrent core state with
      | none => .quiet
      | some current =>
          if state.futexValue futex = value ∨
              state.futexValue futex = waitValue (state.futex futex) value then
            .wait current futex value
          else .quiet
  | .futexWake _ futex all => .wake futex all
  | .store address value => .store address value
  | .switchStep core => switchEvent core state
  | _ => .quiet

/-- The event of `scheduler_switch`: a wake of the drain loop, the end of a wait by a timeout, or the
eviction of a task. -/
theorem switchEvent_cases [NeZero cores] (core : Fin cores) (state : State R cores) :
    switchEvent core state = .quiet ∨
      (∃ index lastTask futex all, (state.coreLocal core).pc = .drain index lastTask ∧
        (state.coreLocal core).deferredWake index = some (futex, all) ∧
        switchEvent core state = .wake futex all) ∨
      (∃ lastTask task, (state.coreLocal core).pc = .timers lastTask ∧
        expiredTask state = some task ∧ switchEvent core state = .depart task) ∨
      ∃ lastTask task, (state.coreLocal core).pc = .pick lastTask ∧
        switchEvent core state = .exit task := by
  simp only [switchEvent]
  split
  · rename_i index lastTask draining
    split
    · split
      · exact Or.inl rfl
      · rename_i futex all slot
        exact Or.inr (Or.inl ⟨index, lastTask, futex, all, draining, slot, rfl⟩)
    · exact Or.inl rfl
  · rename_i lastTask inside
    cases expired : expiredTask state with
    | none => exact Or.inl rfl
    | some task => exact Or.inr (Or.inr (Or.inl ⟨lastTask, task, inside, rfl, rfl⟩))
  · rename_i lastTask inside
    split
    · exact Or.inl rfl
    · rename_i task found
      split
      · exact Or.inl rfl
      · exact Or.inr (Or.inr (Or.inr ⟨lastTask, task, inside, rfl⟩))
  · exact Or.inl rfl

def Event.From [NeZero cores] (event : Event) (state : State R cores) (action : Action cores) :
    Prop :=
  match event with
  | .quiet => True
  | .create task _ => ∃ core descriptor, action = .create core task descriptor
  | .exit task => (∃ core argument, action = .terminate core argument ∧
      taskOrCurrent core argument state = task) ∨ ∃ core, action = .switchStep core
  | .depart task => (∃ core, action = .resume core task) ∨
      (∃ core argument, action = .suspend core argument ∧ ¬cores > 1 ∧
        taskOrCurrent core argument state = task) ∨
      ∃ core lastTask, action = .switchStep core ∧ (state.coreLocal core).pc = .timers lastTask ∧
        expiredTask state = some task
  | .setPriority task priority => ∃ core argument, action = .setPriority core argument priority ∧
      taskOrCurrent core argument state = task
  | .wait task futex expected => ∃ core ticks, action = .futexWait core futex expected ticks ∧
      schedGetCurrent core state = some task ∧ (state.futexValue futex = expected ∨
        state.futexValue futex = waitValue (state.futex futex) expected)
  | .wake futex all => (∃ core, action = .futexWake core futex all) ∨
      ∃ core index lastTask, action = .switchStep core ∧
        (state.coreLocal core).pc = .drain index lastTask ∧
        (state.coreLocal core).deferredWake index = some (futex, all)
  | .store address value => action = .store address value
  | .initFutex futex value flags => action = .futexInit futex value flags

theorem event_from [NeZero cores] (state : State R cores) (action : Action cores) :
    (event state action).From state action := by
  cases action with
  | create core task descriptor => exact ⟨core, descriptor, rfl⟩
  | suspend core argument =>
      simp only [event]
      split
      · trivial
      · rename_i single
        exact Or.inr (Or.inl ⟨core, argument, rfl, single, rfl⟩)
  | resume core task => exact Or.inl ⟨core, rfl⟩
  | terminate core argument =>
      simp only [event]
      split
      · trivial
      · exact Or.inl ⟨core, argument, rfl, rfl⟩
  | setPriority core argument priority =>
      simp only [event]
      split
      · exact ⟨core, argument, rfl, rfl⟩
      · trivial
  | futexInit futex value flags => rfl
  | futexWait core futex expected ticks =>
      simp only [event]
      split
      · trivial
      · rename_i current runs
        split
        · rename_i matched
          exact ⟨core, ticks, rfl, runs, matched⟩
        · trivial
  | futexWake core futex all => exact Or.inl ⟨core, rfl⟩
  | store address value => rfl
  | switchStep core =>
      simp only [event]
      rcases switchEvent_cases core state with quiet |
          ⟨index, lastTask, futex, all, inside, slot, wakes⟩ | ⟨lastTask, task, inside, expired, departs⟩ |
          ⟨lastTask, task, inside, exits⟩
      · rw [quiet]
        trivial
      · rw [wakes]
        exact Or.inr ⟨core, index, lastTask, rfl, inside, slot⟩
      · rw [departs]
        exact Or.inr (Or.inr ⟨core, lastTask, rfl, inside, expired⟩)
      · rw [exits]
        exact Or.inr ⟨core, rfl⟩
  | _ => trivial

end

variable {cores : Nat} {state : Plain cores} {core : Fin cores}

theorem View.remove_absent {view : View} {task : Word} (absent : ∀ futex, ¬view.Waits task futex) :
    view.remove task = view := by
  refine View.ext rfl rfl rfl ?_ rfl rfl rfl
  funext futex
  exact filter_absent (absent futex)

theorem Placed.notWaiting (placed : Placed state) {task : Word}
    (notBlocked : (state.task task).state ≠ .blocked) (futex : Word) :
    ¬state.view.Waits task futex := by
  intro waits
  exact notBlocked ((placed task).blocked.mpr ⟨futex, ((placed task).queued _).mp waits⟩)

theorem Placed.view_remove (placed : Placed state) {task : Word}
    (notBlocked : (state.task task).state ≠ .blocked) : state.view.remove task = state.view :=
  View.remove_absent (placed.notWaiting notBlocked)

theorem notAlive (placed : Placed state) {task : Word} (dead : ¬schedulerTaskAlive task state) :
    (state.task task).state = .terminated := by
  by_contra live
  exact dead (decide_eq_true ((placed task).listed.mpr live))

theorem view_resume (placed : Placed state) (task : Word) :
    (schedulerResumeSvc core task state).view = state.view.remove task := by
  simp only [schedulerResumeSvc]
  split
  · rw [view_requestSwitch]
    split
    · rw [view_returnResult, view_queuePush_ready, view_setTaskState]
      split
      · simp
      · simp
    · rename_i idle
      rw [view_returnResult, placed.view_remove fun blocked => idle (Or.inl blocked)]
  · rename_i dead
    rw [view_returnResult, placed.view_remove]
    simp [notAlive placed dead]

theorem view_suspendSvc [NeZero cores] (placed : Placed state) {task ticks : Word}
    {next : Plain cores} (done : schedulerSuspendSvc core task ticks state = some next) :
    next.view = state.view.remove task := by
  simp only [schedulerSuspendSvc] at done
  split at done
  · cases done
  · rename_i current runs
    split at done
    · obtain rfl := Option.some_inj.mp done
      have running : (state.task current).state = .running := placed.running runs
      simp only [view_requestSwitch, view_setCurrent, view_timerStart, view_suspendTask,
        view_setResult]
      split
      · subst task
        exact (placed.view_remove (by simp [running])).symm
      · rfl
    · rename_i dead
      obtain rfl := Option.some_inj.mp done
      rw [view_setResult, placed.view_remove]
      simp [notAlive placed dead]

theorem view_terminateSvc (placed : Placed state) (task : Word) :
    (schedulerTerminateSvc core task state).view = state.view.exit task := by
  simp only [schedulerTerminateSvc]
  split
  · split
    · simp [View.exit, View.remove]
    · simp [View.exit, View.remove]
  · rename_i dead
    have terminated := notAlive placed dead
    rw [view_returnResult, View.exit, placed.view_remove (by simp [terminated])]
    refine View.ext ?_ rfl rfl rfl rfl rfl rfl
    exact (filter_absent fun listed => (placed task).listed.mp listed terminated).symm

theorem view_prioritySvc (placed : Placed state) {task : Word} (priority : Nat)
    (alive : schedulerTaskAlive task state) :
    (schedulerPrioritySvc core task priority state).view = state.view.setPriority task priority := by
  have changed : ((returnResult core (.value 0) state).setTask task fun entry =>
      { entry with basePriority := priority }).view =
      { state.view with base := Function.update state.view.base task priority } := by
    have returned : (returnResult core (.value 0) state).view = state.view :=
      view_returnResult core (.value 0)
    rw [View.ext_iff] at returned
    obtain ⟨tasks, base, current, waiters, futex, memory, owned⟩ := returned
    refine View.ext tasks ?_ ?_ waiters futex memory owned
    · funext other
      by_cases same : other = task
      · subst other
        simp [State.view, State.setTask]
      · simpa [State.view, State.setTask, same] using congrFun base other
    · funext other
      by_cases same : other = task
      · subst other
        simpa [State.view, State.setTask] using congrFun current task
      · simpa [State.view, State.setTask, same] using congrFun current other
  simp only [schedulerPrioritySvc, alive, if_true]
  rw [view_requestSwitch, view_reprioritize, changed]
  · rfl
  · have same : ((returnResult core (.value 0) state).setTask task fun entry =>
        { entry with basePriority := priority }).whereabouts task = state.whereabouts task := by
      rw [whereabouts_setTask_same _ rfl rfl, whereabouts_returnResult]
    intro queue
    rw [same]
    exact (placed task).queued queue

theorem view_waitSvc [NeZero cores] (placed : Placed state) {futex expected ticks : Word}
    {next : Plain cores} (done : schedulerWaitSvc core futex expected ticks state = some next) :
    ∃ current, schedGetCurrent core state = some current ∧
      next.view =
        if state.futexValue futex = expected ∨
            state.futexValue futex = waitValue (state.futex futex) expected then
          state.view.wait current futex (waitValue (state.futex futex) expected)
        else state.view := by
  simp only [schedulerWaitSvc] at done
  split at done
  · cases done
  · rename_i current runs
    refine ⟨current, runs, ?_⟩
    split at done
    · obtain ⟨after, served, rfl⟩ := Option.map_eq_some_iff.mp done
      rw [view_requestSwitch, view_setCurrent]
      have returned : Placed (setResult current (.value 0) state) :=
        placed.congr fun _ => whereabouts_setResult _
      split at served
      · rename_i blocks
        rw [view_block returned (by simp [(placed.running_free runs).2.1]) served, view_setResult]
        exact (if_pos blocks).symm
      · rename_i triggered
        obtain rfl := Option.some_inj.mp served
        rw [view_queuePush_ready, view_setTaskState, view_setResult]
        exact (if_neg triggered).symm
    · cases done

theorem view_wakeFutex (placed : Placed state) {futex : Word} {all : Bool} {woken : Nat}
    {next : Plain cores} (done : schedulerWakeFutex futex all state = some (next, woken)) :
    state.view.wake futex all = some next.view := by
  simp only [schedulerWakeFutex] at done
  obtain ⟨restored, first, same⟩ := Option.map_eq_some_iff.mp done
  have result : next = schedulerTrackContention futex
      (schedulerWakeWaiters futex all (restored.queue (.waiters futex)).length 0 restored).1 :=
    (Prod.mk.inj same).1.symm
  rw [View.wake, view_restore placed first, result, view_trackContention, view_wakeWaiters]
  rfl

theorem view_wakeSvc (placed : Placed state) {futex : Word} {all : Bool} {next : Plain cores}
    (done : schedulerWakeSvc core futex all state = some next) :
    state.view.wake futex all = some next.view := by
  simp only [schedulerWakeSvc] at done
  split at done
  · obtain ⟨⟨after, woken⟩, served, rfl⟩ := Option.map_eq_some_iff.mp done
    rw [view_wakeFutex placed served]
    simp only
    split
    · rw [view_requestSwitch, view_returnResult]
    · rw [view_returnResult]
  · cases done

theorem view_create {task : Word} {descriptor : TaskDescriptor} :
    (schedulerCreate core task descriptor state).view =
      state.view.create task descriptor.priority := by
  have initialised : ((schedulerInitTask task descriptor state).listTask task).view =
      state.view.create task descriptor.priority := by
    rw [view_listTask]
    refine View.ext rfl ?_ ?_ rfl rfl rfl rfl
    · funext other
      by_cases same : other = task
      · subst other
        simp [schedulerInitTask, View.create, State.view, State.setTask, newTask]
      · simp [schedulerInitTask, View.create, State.view, State.setTask, same]
    · funext other
      by_cases same : other = task
      · subst other
        simp [schedulerInitTask, View.create, State.view, State.setTask, newTask]
      · simp [schedulerInitTask, View.create, State.view, State.setTask, same]
  rw [schedulerCreate]
  split
  · simp only [schedulerCreatePrimordial, view_setCurrent]
    rw [view_setTask _ rfl rfl]
    exact initialised
  · simp only [schedulerCreateSvc, view_returnResult]
    split
    · rw [view_setTaskState, initialised]
    · split
      · rw [view_queuePush_ready, view_setTaskState, initialised]
      · split
        · rw [view_requestSwitch, view_queuePush_ready, view_setTaskState, initialised]
        · rw [view_queuePush_ready, view_setTaskState, initialised]

theorem view_switchDrain [NeZero cores] (placed : Placed state) {index : Nat} {lastTask : Option Word}
    {next : Plain cores} (inside : (state.coreLocal core).pc = .drain index lastTask)
    (done : schedulerSwitchDrain core index lastTask state = some next) :
    state.view.perform (switchEvent core state) = some next.view := by
  simp only [schedulerSwitchDrain] at done
  simp only [switchEvent, inside]
  split at done
  · rename_i pending
    rw [if_pos pending]
    have busy : (state.coreLocal core).pc ≠ .outside := by simp [inside]
    have taken := placed.takeSlot busy index lastTask
    cases slot : (state.coreLocal core).deferredWake index with
    | none =>
        rw [slot] at done
        obtain rfl := Option.some_inj.mp done
        rfl
    | some wakeup =>
        rw [slot] at done
        obtain ⟨⟨after, woken⟩, served, rfl⟩ := Option.map_eq_some_iff.mp done
        have woke := view_wakeFutex taken served
        exact woke
  · rename_i drained
    obtain rfl := Option.some_inj.mp done
    rw [if_neg drained]
    rfl

theorem timerPop_eq [NeZero cores] :
    schedulerTimerPop state =
      (expiredTask state).map fun task => (task, schedulerTimerRemove task state) := by
  simp only [schedulerTimerPop, expiredTask]
  cases state.timerList with
  | nil => rfl
  | cons first rest =>
      simp only [List.head?_cons, Option.filter_some]
      split
      · rename_i due
        simp [due]
      · rename_i early
        simp [early]

theorem view_switchTimers [NeZero cores] {lastTask : Option Word}
    (inside : (state.coreLocal core).pc = .timers lastTask) :
    state.view.perform (switchEvent core state) =
      some (schedulerSwitchTimers core lastTask state).view := by
  simp only [switchEvent, inside, schedulerSwitchTimers, timerPop_eq]
  cases expiredTask state with
  | none => rfl
  | some expired => simp [View.perform]

theorem view_switchIdle {lastTask : Option Word} :
    (schedulerSwitchIdle core lastTask state).view = state.view := by
  simp only [schedulerSwitchIdle]
  split
  · rfl
  · rfl

theorem view_dispatch {task : Word} {lastTask : Option Word} :
    (schedulerDispatch core task lastTask state).view = state.view := by
  have running : (state.setTask task fun entry =>
      { entry with state := .running, core := core }).view = state.view := view_setTask _ rfl rfl
  exact running

theorem view_switchPick [NeZero cores] (placed : Placed state) {lastTask : Option Word}
    (inside : (state.coreLocal core).pc = .pick lastTask) :
    state.view.perform (switchEvent core state) =
      some (schedulerSwitchPick core lastTask state).view := by
  simp only [switchEvent, inside, schedulerSwitchPick, schedQueuePop]
  cases found : (state.queue .readyQueue).find? fun task => (state.task task).eligible core with
  | none => exact congrArg some view_switchIdle.symm
  | some task =>
      have ready : (state.task task).state = .ready :=
        (placed task).ready.mpr (((placed task).queued _).mp (List.mem_of_find?_eq_some found))
      have absent : state.view.remove task = state.view := placed.view_remove (by simp [ready])
      have marker : schedulerCheckStack ((schedQueueRemove task state).task task) =
          schedulerCheckStack (state.task task) := by
        simp [schedQueueRemove, State.setTask, schedulerCheckStack]
      simp only [Option.map_some, marker]
      split
      · rw [view_dispatch, view_queueRemove, absent]
        rfl
      · rw [view_switchIdle]
        simp [schedulerEvict, View.perform, View.exit, absent]

theorem view_switch [NeZero cores] (placed : Placed state) {next : Plain cores}
    (done : schedulerSwitch core state = some next) :
    state.view.perform (switchEvent core state) = some next.view := by
  rw [schedulerSwitch] at done
  split at done
  · cases done
  · rename_i index lastTask inside
    exact view_switchDrain placed inside done
  · rename_i lastTask inside
    obtain rfl := Option.some_inj.mp done
    exact view_switchTimers inside
  · rename_i lastTask inside
    obtain rfl := Option.some_inj.mp done
    exact view_switchPick placed inside
  · rename_i lastTask inside
    split at done
    · obtain rfl := Option.some_inj.mp done
      simp only [switchEvent, inside]
      rfl
    · cases done

theorem view_tick [NeZero cores] (core : Fin cores) :
    (schedulerTick core state).view = state.view := by
  simp only [schedulerTick]
  split
  · simp only [schedulerTickSlice]
    have checked : ∀ state : Plain cores, (schedulerTickTimers core state).view = state.view := by
      intro state
      rw [schedulerTickTimers]
      split
      · rfl
      · rfl
    split
    · split
      · exact checked _
      · exact checked _
    · exact checked _
  · rfl

theorem taskOrCurrent_current {current : Word} (runs : schedGetCurrent core state = some current)
    (task : Word) : taskOrCurrent core task state = if task = 0 then current else task := by
  simp [taskOrCurrent, runs]

theorem view_yield : (schedulerYield core state).view = state.view := by
  rw [schedulerYield]
  split
  · rfl
  · rfl

theorem view_sleep [NeZero cores] (placed : Placed state) {ticks : Word} {next : Plain cores}
    (inThread : state.inThread core) (done : schedulerSleep core ticks state = some next) :
    next.view = state.view := by
  obtain ⟨current, runs⟩ := State.exists_current inThread
  have running : (state.task current).state = .running := placed.running runs
  rw [schedulerSleep] at done
  split at done
  · obtain rfl := Option.some_inj.mp done
    exact view_yield
  · rw [view_suspendSvc placed done, taskOrCurrent_current runs]
    exact placed.view_remove (by simp [running])

theorem view_suspend [NeZero cores] (placed : Placed state) {task : Word} {next : Plain cores}
    (inThread : state.inThread core) (done : schedulerSuspend core task state = some next) :
    state.view.perform (event state (.suspend core task)) = some next.view := by
  obtain ⟨current, runs⟩ := State.exists_current inThread
  have running : (state.task current).state = .running := placed.running runs
  simp only [schedulerSuspend] at done
  simp only [event]
  split at done
  · rename_i refused
    obtain rfl := Option.some_inj.mp done
    rw [if_pos refused.1, view_returnResult]
    rfl
  · rename_i allowed
    rw [view_suspendSvc placed done]
    split
    · rename_i many
      have isCurrent : some (taskOrCurrent core task state) = some current := by
        by_contra different
        exact allowed ⟨many, fun same => different (same.trans runs)⟩
      rw [Option.some_inj.mp isCurrent]
      exact congrArg some (placed.view_remove (by simp [running])).symm
    · rfl

theorem view_setPriority [NeZero cores] (placed : Placed state) (task : Word) (priority : Nat) :
    state.view.perform (event state (.setPriority core task priority)) =
      some (schedulerSetPriority core task priority state).view := by
  simp only [schedulerSetPriority, event]
  by_cases range : priority > schedulerMinTaskPriority
  · rw [if_pos range, if_neg (fun valid => Nat.not_lt.mpr valid.1 range), view_returnResult]
    rfl
  · rw [if_neg range]
    by_cases alive : taskOrCurrent core task state ∈ state.taskList
    · rw [if_pos ⟨Nat.not_lt.mp range, alive⟩]
      exact congrArg some (view_prioritySvc placed priority (decide_eq_true alive)).symm
    · have dead : schedulerTaskAlive (taskOrCurrent core task state) state = false :=
        decide_eq_false alive
      rw [if_neg (fun valid => alive valid.2)]
      simp only [schedulerPrioritySvc, dead, Bool.false_eq_true, if_false, view_returnResult]
      rfl

theorem view_wakeDeferred (futex : Word) (all : Bool) :
    (schedulerFutexWakeDeferred core futex all state).view = state.view := by
  rw [schedulerFutexWakeDeferred]
  split
  · rfl
  · split
    · rfl
    · rfl

theorem view_switchEnter : (schedulerSwitchEnter core state).view = state.view := by
  simp only [schedulerSwitchEnter]
  split
  · rfl
  · split
    · rfl
    · rw [view_setPc, view_queuePush_ready, view_setTaskStateOff]
      rfl

theorem view_step [NeZero cores] (placed : Placed state) {action : Action cores}
    {next : Plain cores} (done : step state action = some next) :
    state.view.perform (event state action) = some next.view := by
  cases schedulerSteps done with
  | create core task descriptor _ => exact congrArg some view_create.symm
  | start core _ _ =>
      rfl
  | yield core _ => exact congrArg some view_yield.symm
  | sleep core ticks possible done => exact congrArg some (view_sleep placed possible done).symm
  | suspend core task possible done => exact view_suspend placed possible done
  | resume core task _ _ => exact congrArg some (view_resume placed task).symm
  | terminate core task _ =>
      simp only [schedulerTerminate, event]
      split
      · rw [view_returnResult]
        rfl
      · exact congrArg some (view_terminateSvc placed _).symm
  | setPriority core task priority _ => exact view_setPriority placed task priority
  | setFlags task mask _ => exact congrArg some (view_setTask _ rfl rfl).symm
  | clearFlags task mask _ => exact congrArg some (view_setTask _ rfl rfl).symm
  | futexInit futex value flags empty =>
      have queues : Store.initHead state.queues (.waiters futex) = state.queues :=
        Function.update_eq_self_iff.mpr empty.symm
      simp only [schedulerFutexInit, queues]
      rfl
  | futexWait core futex value ticks _ done =>
      obtain ⟨current, runs, view⟩ := view_waitSvc placed done
      simp only [event, runs, view]
      split
      · rfl
      · rfl
  | futexWake core futex all _ done => exact view_wakeSvc placed done
  | lock =>
      rfl
  | unlock =>
      rfl
  | lockRestore lock =>
      rfl
  | store address value =>
      rfl
  | smashStack task => exact congrArg some (view_setTask _ rfl rfl).symm
  | tick core => exact congrArg some (view_tick core).symm
  | interruptWake core futex all _ => exact congrArg some (view_wakeDeferred futex all).symm
  | switchEnter core _ _ _ => exact congrArg some view_switchEnter.symm
  | switchStep core done => exact view_switch placed done

theorem enabled_step [NeZero cores] (placed : Placed state) {action : Action cores}
    {next : Plain cores} (done : step state action = some next) :
    state.view.Enabled (event state action) := by
  cases action with
  | create core task descriptor =>
      simp only [step, Option.ite_none_right_eq_some] at done
      obtain ⟨possible, _⟩ := done
      simp only [creatable, Bool.and_eq_true, decide_eq_true_eq] at possible
      obtain ⟨⟨⟨⟨⟨nonzero, untagged⟩, fresh⟩, _⟩, _⟩, _⟩ := possible
      refine ⟨fun listed => (placed task).listed.mp listed fresh, ?_, nonzero, untagged⟩
      exact placed.notWaiting (by simp [fresh])
  | setPriority core task priority =>
      simp only [event]
      split
      · rename_i valid
        exact valid.2
      · trivial
  | futexInit futex value flags =>
      simp only [step, Option.ite_none_right_eq_some] at done
      exact done.1
  | futexWait core futex value ticks =>
      simp only [event]
      split
      · trivial
      · rename_i current runs
        split
        · rename_i blocks
          have running : (state.task current).state = .running := placed.running runs
          exact ⟨(placed current).listed.mpr (by simp [State.whereabouts, running]),
            placed.notWaiting (by simp [running]), blocks⟩
        · trivial
  | switchStep core =>
      simp only [event, switchEvent]
      split
      · split
        · split
          · trivial
          · trivial
        · trivial
      · cases expiredTask state with
        | none => trivial
        | some expired => trivial
      · split
        · trivial
        · split
          · trivial
          · trivial
      · trivial
  | suspend core task =>
      simp only [event]
      split
      · trivial
      · trivial
  | terminate core task =>
      simp only [event]
      split
      · trivial
      · trivial
  | _ => trivial

theorem event_plain [NeZero cores] (state : State Links cores) (action : Action cores) :
    event state.plain action = event state action := by
  cases action with
  | _ => rfl

theorem view_transition [NeZero cores] {state next : State Links cores} {action : Action cores}
    (reached : (scheduler cores).Reachable state)
    (moved : (scheduler cores).step state action = some next) :
    state.view.Enabled (event state action) ∧
      state.view.perform (event state action) = some next.view := by
  obtain ⟨follows, abstractly⟩ := (scheduler_simulation cores).reachable reached
  have placed := placed_of_reachable abstractly
  have follow := ((scheduler_simulation cores).step _ _ _ follows abstractly moved).2
  rw [← event_plain]
  exact ⟨enabled_step placed follow, view_step placed follow⟩

/-- A run of the scheduler whose steps meet a condition on the view and the event is a run of the
view that meets it. -/
theorem view_guarded [NeZero cores] {guard : View → Event → Prop} {state : State Links cores}
    (reached : (scheduler cores).Guarded
      (fun state action => guard state.view (event state action)) state) :
    contention.Guarded (fun view event => view.Enabled event ∧ guard view event) state.view := by
  induction reached with
  | start begins =>
      obtain ⟨memory, sliceDuration, rfl⟩ := begins
      refine .start ⟨memory, ?_⟩
      have empty : ∀ H : Type, schedListEntries (Links.empty : Links H Word) = fun _ => [] :=
        fun _ => entries_eq Links.empty_represents
      refine View.ext ?_ rfl rfl ?_ rfl rfl rfl
      · exact congrFun (empty Unit) ()
      · funext futex
        exact congrFun (empty QueueId) (.waiters futex)
  | step before allowed moved ih =>
      obtain ⟨enabled, performed⟩ := view_transition before.reachable moved
      exact .step ih ⟨enabled, allowed⟩ performed

end PicoToolkit
