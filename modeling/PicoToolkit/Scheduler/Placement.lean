import PicoToolkit.Scheduler.System

/-!
Where the scheduler keeps a task.  Every function of the scheduler moves tasks between the lists of
the abstract state; what it does to the whereabouts of each task is stated once per function, and
the placement invariant follows from that.
-/

namespace PicoToolkit

open Ring

variable {cores : Nat}

abbrev Plain (cores : Nat) : Type := State Family cores

structure Whereabouts (cores : Nat) where
  state : TaskState
  currentQueue : Option QueueId
  inQueue : QueueId → Prop
  onCore : Fin cores → Prop
  listed : Prop
  timed : Prop
  outside : Fin cores → Prop

structure Whereabouts.Consistent (whereabouts : Whereabouts cores) : Prop where
  queued : ∀ queue, whereabouts.inQueue queue ↔ whereabouts.currentQueue = some queue
  ready : whereabouts.state = .ready ↔ whereabouts.currentQueue = some .readyQueue
  blocked : whereabouts.state = .blocked ↔
    ∃ futex, whereabouts.currentQueue = some (.waiters futex)
  running : whereabouts.state = .running ↔ ∃ core, whereabouts.onCore core
  oneCore : ∀ left right, whereabouts.onCore left → whereabouts.onCore right → left = right
  listed : whereabouts.listed ↔ whereabouts.state ≠ .terminated
  timed : whereabouts.timed → whereabouts.state = .blocked ∨ whereabouts.state = .suspended
  outside : ∀ core, whereabouts.onCore core → whereabouts.outside core

def State.whereabouts (state : Plain cores) (task : Word) : Whereabouts cores where
  state := (state.task task).state
  currentQueue := (state.task task).currentQueue
  inQueue queue := task ∈ state.queue queue
  onCore core := state.currentTask core = some task
  listed := task ∈ state.taskList
  timed := task ∈ state.timerList
  outside core := (state.coreLocal core).pc = .outside

def Placed (state : Plain cores) : Prop := ∀ task, (state.whereabouts task).Consistent

section Whereabouts

variable {state : Plain cores} {task other : Word}

theorem whereabouts_setTask (change : Task → Task) {new : TaskState}
    (becomes : (change (state.task task)).state = new)
    (same : (change (state.task task)).currentQueue = (state.task task).currentQueue) :
    (state.setTask task change).whereabouts other =
      if other = task then { state.whereabouts task with state := new }
      else state.whereabouts other := by
  by_cases touched : other = task
  · subst other
    simp [State.whereabouts, State.setTask, State.queue, State.currentTask, State.taskList,
      State.timerList, becomes, same]
  · simp [State.whereabouts, State.setTask, State.queue, State.currentTask, State.taskList,
      State.timerList, touched]

@[simp]
theorem whereabouts_setTaskState (new : TaskState) :
    (setTaskState task new state).whereabouts other =
      if other = task then { state.whereabouts task with state := new }
      else state.whereabouts other :=
  whereabouts_setTask _ rfl rfl

@[simp]
theorem whereabouts_setTaskStateOff (new : TaskState) :
    (setTaskStateOff task new state).whereabouts other =
      if other = task then { state.whereabouts task with state := new }
      else state.whereabouts other :=
  whereabouts_setTask _ rfl rfl

theorem whereabouts_setTask_same (change : Task → Task)
    (stays : (change (state.task task)).state = (state.task task).state)
    (same : (change (state.task task)).currentQueue = (state.task task).currentQueue) :
    (state.setTask task change).whereabouts other = state.whereabouts other := by
  rw [whereabouts_setTask change stays same]
  split
  · subst other
    rfl
  · rfl

theorem replace_same (predicate : Fin cores → Prop) {core : Fin cores} {value : Prop}
    (same : value = predicate core) :
    (fun other => if other = core then value else predicate other) = predicate := by
  funext other
  by_cases eq : other = core
  · rw [if_pos eq, same, eq]
  · rw [if_neg eq]

theorem whereabouts_setCore (core : Fin cores) (change : CoreLocal → CoreLocal)
    {current : Option Word} {pc : SwitchPc}
    (holds : (change (state.coreLocal core)).currentTask = current)
    (moves : (change (state.coreLocal core)).pc = pc) :
    (state.setCore core change).whereabouts other =
      { state.whereabouts other with
        onCore := fun core' =>
          if core' = core then current = some other else (state.whereabouts other).onCore core'
        outside := fun core' =>
          if core' = core then pc = .outside else (state.whereabouts other).outside core' } := by
  have parts : ∀ core', ((state.setCore core change).coreLocal core').currentTask =
        (if core' = core then current else (state.coreLocal core').currentTask) ∧
      ((state.setCore core change).coreLocal core').pc =
        if core' = core then pc else (state.coreLocal core').pc := by
    intro core'
    by_cases eq : core' = core
    · subst eq
      simp [State.setCore, holds, moves]
    · simp [State.setCore, eq]
  simp only [State.whereabouts, State.currentTask, parts]
  congr 1
  · funext core'
    split <;> rfl
  · funext core'
    split <;> rfl

theorem whereabouts_setCore_same (core : Fin cores) (change : CoreLocal → CoreLocal)
    (same : (change (state.coreLocal core)).currentTask = (state.coreLocal core).currentTask)
    (stays : (change (state.coreLocal core)).pc = (state.coreLocal core).pc) :
    (state.setCore core change).whereabouts other = state.whereabouts other := by
  rw [whereabouts_setCore core change same stays, replace_same (state.whereabouts other).onCore,
    replace_same (state.whereabouts other).outside]
  · rfl
  · rfl

@[simp]
theorem whereabouts_setCurrent (core : Fin cores) (current : Option Word) :
    (schedSetCurrent core current state).whereabouts other =
      { state.whereabouts other with
        onCore := fun core' =>
          if core' = core then current = some other
          else (state.whereabouts other).onCore core' } := by
  rw [schedSetCurrent, whereabouts_setCore core _ rfl rfl,
    replace_same (state.whereabouts other).outside]
  rfl

@[simp]
theorem whereabouts_setPc (core : Fin cores) (pc : SwitchPc) :
    (setPc core pc state).whereabouts other =
      { state.whereabouts other with
        outside := fun core' =>
          if core' = core then pc = .outside else (state.whereabouts other).outside core' } := by
  rw [setPc, whereabouts_setCore core _ rfl rfl, replace_same (state.whereabouts other).onCore]
  rfl

@[simp]
theorem whereabouts_queueRemove :
    (schedQueueRemove task state).whereabouts other =
      if other = task then
        { state.whereabouts task with inQueue := fun _ => False, currentQueue := none }
      else state.whereabouts other := by
  by_cases same : other = task
  · subst other
    simp [schedQueueRemove, State.setTask, State.whereabouts, State.queue, State.timerList,
      State.taskList, State.currentTask]
  · simp [schedQueueRemove, State.setTask, State.whereabouts, State.queue, State.timerList,
      State.taskList, State.currentTask, same]

@[simp]
theorem whereabouts_queuePush (queue : QueueId) :
    (schedQueuePush queue task state).whereabouts other =
      if other = task then
        { state.whereabouts task with
          inQueue := fun queue' => queue' = queue ∨ (state.whereabouts task).inQueue queue'
          currentQueue := some queue }
      else state.whereabouts other := by
  by_cases same : other = task
  · subst other
    simp [schedQueuePush, State.setTask, State.whereabouts, State.queue, State.timerList,
      State.taskList, State.currentTask]
  · simp [schedQueuePush, State.setTask, State.whereabouts, State.queue, State.timerList,
      State.taskList, State.currentTask, same]

@[simp]
theorem whereabouts_timerRemove :
    (schedulerTimerRemove task state).whereabouts other =
      if other = task then { state.whereabouts task with timed := False }
      else state.whereabouts other := by
  by_cases same : other = task
  · subst other
    simp [schedulerTimerRemove, State.unlinkTimer, State.whereabouts, State.queue, State.timerList, State.taskList,
      State.currentTask]
  · simp [schedulerTimerRemove, State.unlinkTimer, State.whereabouts, State.queue, State.timerList, State.taskList,
      State.currentTask, same]

@[simp]
theorem whereabouts_timerPush [NeZero cores] (delay : Word) :
    (schedulerTimerPush task delay state).whereabouts other =
      if other = task then { state.whereabouts task with timed := True }
      else state.whereabouts other := by
  by_cases same : other = task
  · subst other
    simp [schedulerTimerPush, State.unlinkTimer, State.linkTimer, State.setTask, State.whereabouts, State.queue, State.timerList,
      State.taskList, State.currentTask]
  · simp [schedulerTimerPush, State.unlinkTimer, State.linkTimer, State.setTask, State.whereabouts, State.queue, State.timerList,
      State.taskList, State.currentTask, same]

@[simp]
theorem whereabouts_timerStart [NeZero cores] (ticks : Word) :
    (schedulerTimerStart task ticks state).whereabouts other =
      if other = task then
        { state.whereabouts task with
          timed := ticks < schedulerWaitForever ∨ (state.whereabouts task).timed }
      else state.whereabouts other := by
  rw [schedulerTimerStart]
  split
  · rename_i timed
    simp [timed]
  · rename_i untimed
    simp only [untimed, false_or]
    split
    · subst other
      rfl
    · rfl

@[simp]
theorem whereabouts_unlinkTimer :
    (state.unlinkTimer task).whereabouts other =
      if other = task then { state.whereabouts task with timed := False }
      else state.whereabouts other := by
  by_cases same : other = task
  · subst other
    simp [State.unlinkTimer, State.whereabouts, State.queue, State.timerList, State.taskList,
      State.currentTask]
  · simp [State.unlinkTimer, State.whereabouts, State.queue, State.timerList, State.taskList,
      State.currentTask, same]

@[simp]
theorem whereabouts_listTask :
    (state.listTask task).whereabouts other =
      if other = task then { state.whereabouts task with listed := True }
      else state.whereabouts other := by
  by_cases same : other = task
  · subst other
    simp [State.listTask, State.whereabouts, State.queue, State.timerList, State.taskList,
      State.currentTask]
  · simp [State.listTask, State.whereabouts, State.queue, State.timerList, State.taskList,
      State.currentTask, same]

@[simp]
theorem whereabouts_unlistTask :
    (state.unlistTask task).whereabouts other =
      if other = task then { state.whereabouts task with listed := False }
      else state.whereabouts other := by
  by_cases same : other = task
  · subst other
    simp [State.unlistTask, State.whereabouts, State.queue, State.timerList, State.taskList,
      State.currentTask]
  · simp [State.unlistTask, State.whereabouts, State.queue, State.timerList, State.taskList,
      State.currentTask, same]

@[simp]
theorem whereabouts_setMemory (address value : Word) :
    (state.setMemory address value).whereabouts other = state.whereabouts other := rfl

@[simp]
theorem whereabouts_setOwned (change : Links Word Word → Links Word Word) :
    (state.setOwned change).whereabouts other = state.whereabouts other := rfl

@[simp]
theorem whereabouts_requestSwitch (core : Fin cores) :
    (schedulerRequestSwitch core state).whereabouts other = state.whereabouts other :=
  whereabouts_setCore_same core _ rfl rfl

@[simp]
theorem whereabouts_setResult (result : Result) :
    (setResult task result state).whereabouts other = state.whereabouts other :=
  whereabouts_setTask_same _ rfl rfl

@[simp]
theorem whereabouts_returnResult (core : Fin cores) (result : Result) :
    (returnResult core result state).whereabouts other = state.whereabouts other := by
  rw [returnResult]
  split
  · rfl
  · exact whereabouts_setResult result

theorem whereabouts_reprioritize
    (queued : ∀ queue, (state.whereabouts task).inQueue queue ↔
      (state.whereabouts task).currentQueue = some queue)
    (newPriority : Nat) :
    (schedQueueReprioritize task newPriority state).whereabouts other = state.whereabouts other := by
  rw [schedQueueReprioritize]
  have unchanged : ∀ x, (state.setTask task fun entry =>
      { entry with currentPriority := newPriority }).whereabouts x = state.whereabouts x :=
    fun _ => whereabouts_setTask_same _ rfl rfl
  split
  · exact unchanged other
  · rename_i queue found
    rw [whereabouts_queuePush, whereabouts_queueRemove, whereabouts_queueRemove, unchanged, unchanged]
    have current : (state.whereabouts task).currentQueue = some queue := by
      simpa [State.setTask, State.whereabouts] using found
    split
    · subst other
      have queues : (state.whereabouts task).inQueue = fun queue' => queue' = queue := by
        funext queue'
        rw [eq_iff_iff, queued, current, Option.some_inj]
        exact eq_comm
      simp only [if_true, or_false]
      rw [← queues, ← current]
    · rfl

end Whereabouts

namespace Whereabouts

variable {whereabouts : Whereabouts cores}

theorem consistent_ready (state : whereabouts.state = .ready)
    (currentQueue : whereabouts.currentQueue = some .readyQueue)
    (inQueue : ∀ queue, whereabouts.inQueue queue ↔ queue = .readyQueue)
    (offCore : ∀ core, ¬whereabouts.onCore core) (listed : whereabouts.listed)
    (untimed : ¬whereabouts.timed) : whereabouts.Consistent where
  queued queue := by simp [inQueue, currentQueue, eq_comm]
  ready := by simp [state, currentQueue]
  blocked := by simp [state, currentQueue]
  running := by simp [state, offCore]
  oneCore left _ onLeft := (offCore left onLeft).elim
  listed := by simp [state, listed]
  timed isTimed := (untimed isTimed).elim
  outside core onCore := (offCore core onCore).elim

theorem consistent_blocked {futex : Word} (state : whereabouts.state = .blocked)
    (currentQueue : whereabouts.currentQueue = some (.waiters futex))
    (inQueue : ∀ queue, whereabouts.inQueue queue ↔ queue = .waiters futex)
    (offCore : ∀ core, ¬whereabouts.onCore core) (listed : whereabouts.listed) :
    whereabouts.Consistent where
  queued queue := by simp [inQueue, currentQueue, eq_comm]
  ready := by simp [state, currentQueue]
  blocked := by simp [state, currentQueue]
  running := by simp [state, offCore]
  oneCore left _ onLeft := (offCore left onLeft).elim
  listed := by simp [state, listed]
  timed _ := Or.inl state
  outside core onCore := (offCore core onCore).elim

theorem consistent_suspended (state : whereabouts.state = .suspended)
    (currentQueue : whereabouts.currentQueue = none)
    (inQueue : ∀ queue, ¬whereabouts.inQueue queue)
    (offCore : ∀ core, ¬whereabouts.onCore core) (listed : whereabouts.listed) :
    whereabouts.Consistent where
  queued queue := by simp [inQueue, currentQueue]
  ready := by simp [state, currentQueue]
  blocked := by simp [state, currentQueue]
  running := by simp [state, offCore]
  oneCore left _ onLeft := (offCore left onLeft).elim
  listed := by simp [state, listed]
  timed _ := Or.inr state
  outside core onCore := (offCore core onCore).elim

theorem consistent_terminated (state : whereabouts.state = .terminated)
    (currentQueue : whereabouts.currentQueue = none)
    (inQueue : ∀ queue, ¬whereabouts.inQueue queue)
    (offCore : ∀ core, ¬whereabouts.onCore core) (unlisted : ¬whereabouts.listed)
    (untimed : ¬whereabouts.timed) : whereabouts.Consistent where
  queued queue := by simp [inQueue, currentQueue]
  ready := by simp [state, currentQueue]
  blocked := by simp [state, currentQueue]
  running := by simp [state, offCore]
  oneCore left _ onLeft := (offCore left onLeft).elim
  listed := by simp [state, unlisted]
  timed isTimed := (untimed isTimed).elim
  outside core onCore := (offCore core onCore).elim

theorem consistent_running (core : Fin cores) (state : whereabouts.state = .running)
    (currentQueue : whereabouts.currentQueue = none)
    (inQueue : ∀ queue, ¬whereabouts.inQueue queue)
    (onCore : ∀ other, whereabouts.onCore other ↔ other = core) (listed : whereabouts.listed)
    (untimed : ¬whereabouts.timed) (outside : whereabouts.outside core) :
    whereabouts.Consistent where
  queued queue := by simp [inQueue, currentQueue]
  ready := by simp [state, currentQueue]
  blocked := by simp [state, currentQueue]
  running := by simp [state, onCore]
  oneCore left right onLeft onRight := by rw [(onCore left).mp onLeft, (onCore right).mp onRight]
  listed := by simp [state, listed]
  timed isTimed := (untimed isTimed).elim
  outside other isOn := by rw [(onCore other).mp isOn]; exact outside

namespace Consistent

theorem offCore (consistent : whereabouts.Consistent) (idle : whereabouts.state ≠ .running)
    (core : Fin cores) : ¬whereabouts.onCore core := fun onCore =>
  idle (consistent.running.mpr ⟨core, onCore⟩)

theorem isListed (consistent : whereabouts.Consistent) (live : whereabouts.state ≠ .terminated) :
    whereabouts.listed := consistent.listed.mpr live

theorem unqueued (consistent : whereabouts.Consistent) (notReady : whereabouts.state ≠ .ready)
    (notBlocked : whereabouts.state ≠ .blocked) : whereabouts.currentQueue = none := by
  cases current : whereabouts.currentQueue with
  | none => rfl
  | some queue =>
      cases queue with
      | readyQueue => exact (notReady (consistent.ready.mpr current)).elim
      | waiters futex => exact (notBlocked (consistent.blocked.mpr ⟨futex, current⟩)).elim

theorem inNoQueue (consistent : whereabouts.Consistent)
    (unqueued : whereabouts.currentQueue = none) (queue : QueueId) :
    ¬whereabouts.inQueue queue := by
  simp [consistent.queued, unqueued]

theorem untimed (consistent : whereabouts.Consistent) (notBlocked : whereabouts.state ≠ .blocked)
    (notSuspended : whereabouts.state ≠ .suspended) : ¬whereabouts.timed := by
  intro timed
  rcases consistent.timed timed with blocked | suspended
  · exact notBlocked blocked
  · exact notSuspended suspended

end Consistent

end Whereabouts

end PicoToolkit
