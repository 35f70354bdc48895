import PicoToolkit.Inheritance.View
import PicoToolkit.Scheduler.PlacedSwitch

/-!
What each function of the scheduler does to the view of the futexes.
-/

namespace PicoToolkit

open Ring Tag

variable {cores : Nat} {state : Plain cores}

section Primitives

variable {task : Word}

theorem view_setTask (change : Task → Task)
    (base : (change (state.task task)).basePriority = (state.task task).basePriority)
    (current : (change (state.task task)).currentPriority = (state.task task).currentPriority) :
    (state.setTask task change).view = state.view := by
  refine View.ext rfl ?_ ?_ rfl rfl rfl rfl
  · funext other
    by_cases same : other = task
    · subst other
      simp [State.view, State.setTask, base]
    · simp [State.view, State.setTask, same]
  · funext other
    by_cases same : other = task
    · subst other
      simp [State.view, State.setTask, current]
    · simp [State.view, State.setTask, same]

@[simp]
theorem view_setCore (core : Fin cores) (change : CoreLocal → CoreLocal) :
    (state.setCore core change).view = state.view := rfl

@[simp]
theorem view_setCurrent (core : Fin cores) (current : Option Word) :
    (schedSetCurrent core current state).view = state.view := rfl

@[simp]
theorem view_requestSwitch (core : Fin cores) :
    (schedulerRequestSwitch core state).view = state.view := rfl

@[simp]
theorem view_setPc (core : Fin cores) (pc : SwitchPc) : (setPc core pc state).view = state.view := rfl

@[simp]
theorem view_setMemory (address value : Word) :
    (state.setMemory address value).view =
      { state.view with memory := Function.update state.memory address value } := rfl

@[simp]
theorem view_setOwned (change : Links Word Word → Links Word Word) :
    (state.setOwned change).view = { state.view with owned := change state.ownedFutexes } := rfl

@[simp]
theorem view_unlistTask :
    (state.unlistTask task).view =
      { state.view with tasks := state.view.tasks.filter (· ≠ task) } := rfl

theorem view_listTask :
    (state.listTask task).view =
      { state.view with tasks := insertEntry none task state.view.tasks } := by
  have listed : (Store.insert state.tasks () none task : Family Unit Word) () =
      insertEntry none task (state.tasks ()) := Family.insert_self ..
  exact View.ext listed rfl rfl rfl rfl rfl rfl

@[simp]
theorem view_unlinkTimer : (state.unlinkTimer task).view = state.view := rfl

@[simp]
theorem view_timerRemove : (schedulerTimerRemove task state).view = state.view := rfl

@[simp]
theorem view_timerPush [NeZero cores] (delay : Word) :
    (schedulerTimerPush task delay state).view = state.view := by
  have timed : ((state.unlinkTimer task).setTask task fun entry =>
      { entry with timerExpires := schedulerGetTicks (state.unlinkTimer task) + delay }).view =
      (state.unlinkTimer task).view := view_setTask _ rfl rfl
  exact timed

@[simp]
theorem view_timerStart [NeZero cores] (ticks : Word) :
    (schedulerTimerStart task ticks state).view = state.view := by
  rw [schedulerTimerStart]
  split
  · exact view_timerPush ticks
  · rfl

@[simp]
theorem view_setResult (result : Result) : (setResult task result state).view = state.view :=
  view_setTask _ rfl rfl

@[simp]
theorem view_returnResult (core : Fin cores) (result : Result) :
    (returnResult core result state).view = state.view := by
  rw [returnResult]
  split
  · rfl
  · exact view_setResult result

@[simp]
theorem view_setTaskState (new : TaskState) : (setTaskState task new state).view = state.view :=
  view_setTask _ rfl rfl

@[simp]
theorem view_setTaskStateOff (new : TaskState) :
    (setTaskStateOff task new state).view = state.view :=
  view_setTask _ rfl rfl

theorem queue_queuePush (queue other : QueueId) :
    (schedQueuePush queue task state).queue other =
      if other = queue then insertEntry (lessUrgent queue task state) task (state.queue queue)
      else state.queue other := by
  by_cases same : other = queue
  · subst other
    rw [if_pos rfl]
    exact Family.insert_self ..
  · rw [if_neg same]
    exact Family.insert_of_ne same ..

@[simp]
theorem view_queueRemove : (schedQueueRemove task state).view = state.view.remove task := by
  have removed : ({ state with queues := Store.remove state.queues task }.setTask task fun entry =>
      { entry with currentQueue := none }).view =
      State.view { state with queues := Store.remove state.queues task } := view_setTask _ rfl rfl
  exact removed

theorem view_queuePush (queue : QueueId) :
    (schedQueuePush queue task state).view =
      { state.view with
        waiters := fun futex => (schedQueuePush queue task state).queue (.waiters futex) } := by
  have pushed : ({ state with
        queues := Store.insert state.queues queue (lessUrgent queue task state) task }.setTask task
      fun entry => { entry with currentQueue := some queue }).view =
      State.view { state with
        queues := Store.insert state.queues queue (lessUrgent queue task state) task } :=
    view_setTask _ rfl rfl
  exact pushed

@[simp]
theorem view_queuePush_ready : (schedQueuePush .readyQueue task state).view = state.view := by
  rw [view_queuePush]
  refine View.ext rfl rfl rfl ?_ rfl rfl rfl
  funext futex
  exact (queue_queuePush ..).trans (if_neg (by simp))

@[simp]
theorem view_queuePush_waiters (futex : Word) :
    (schedQueuePush (.waiters futex) task state).view = state.view.enqueue futex task := by
  rw [view_queuePush]
  refine View.ext rfl rfl rfl ?_ rfl rfl rfl
  funext other
  rw [View.waiters_enqueue]
  refine (queue_queuePush ..).trans ?_
  by_cases same : other = futex
  · rw [if_pos (congrArg QueueId.waiters same), if_pos same]
    rfl
  · rw [if_neg (by simpa using same), if_neg same]
    rfl

theorem view_reprioritize
    (queued : ∀ queue, (state.whereabouts task).inQueue queue ↔
      (state.whereabouts task).currentQueue = some queue) (priority : Nat) :
    (schedQueueReprioritize task priority state).view = state.view.reprioritize task priority := by
  have changed : (state.setTask task fun entry =>
      { entry with currentPriority := priority }).view =
      { state.view with current := Function.update state.view.current task priority } := by
    refine View.ext rfl ?_ ?_ rfl rfl rfl rfl
    · funext other
      by_cases same : other = task
      · subst other
        simp [State.view, State.setTask]
      · simp [State.view, State.setTask, same]
    · funext other
      by_cases same : other = task
      · subst other
        simp [State.view, State.setTask]
      · simp [State.view, State.setTask, same]
  have waits : ∀ futex, task ∈ state.view.waiters futex ↔
      (state.task task).currentQueue = some (.waiters futex) := fun futex => queued (.waiters futex)
  have names : ((state.setTask task fun entry =>
      { entry with currentPriority := priority }).task task).currentQueue =
      (state.task task).currentQueue := by simp [State.setTask]
  simp only [schedQueueReprioritize, names]
  cases found : (state.task task).currentQueue with
  | none =>
      simp only
      rw [changed]
      refine View.ext rfl rfl rfl ?_ rfl rfl rfl
      funext futex
      exact (if_neg (by simp [waits, found])).symm
  | some queue =>
      cases queue with
      | readyQueue =>
          simp only
          rw [view_queuePush_ready, view_queueRemove, changed]
          refine View.ext rfl rfl rfl ?_ rfl rfl rfl
          funext futex
          have absent : task ∉ state.view.waiters futex := by simp [waits, found]
          exact (filter_absent absent).trans (if_neg absent).symm
      | waiters queue =>
          simp only
          rw [view_queuePush_waiters, view_queueRemove, changed]
          refine View.ext rfl rfl rfl ?_ rfl rfl rfl
          funext futex
          rw [View.waiters_enqueue]
          by_cases same : futex = queue
          · subst futex
            have member : task ∈ state.view.waiters queue := (waits queue).mpr found
            exact (if_pos rfl).trans (if_pos member).symm
          · have absent : task ∉ state.view.waiters futex := by
              simpa [waits, found] using Ne.symm same
            exact ((if_neg same).trans (filter_absent absent)).trans (if_neg absent).symm

@[simp]
theorem view_suspendTask {current : Word} :
    (schedulerSuspendTask current task state).view =
      if task = current then state.view else state.view.remove task := by
  by_cases same : task = current
  · simp [schedulerSuspendTask, same]
  · simp [schedulerSuspendTask, same]

theorem view_linkOwned {futex owner : Word} :
    (schedulerLinkOwned futex owner state).view = state.view.linkOwned futex owner := by
  simp only [schedulerLinkOwned]
  split
  · rename_i linked
    exact View.ext rfl rfl rfl rfl rfl rfl (if_pos linked).symm
  · rename_i loose
    exact View.ext rfl rfl rfl rfl rfl rfl (if_neg loose).symm

end Primitives

section Services

theorem view_enqueueWaiter [NeZero cores] {current futex value : Word} (ticks : Word) :
    (schedulerEnqueueWaiter current futex value ticks state).view =
      (state.view.setValue futex value).enqueue futex current := by
  simp only [schedulerEnqueueWaiter, view_queuePush_waiters, view_setTaskStateOff, view_timerStart,
    view_setMemory]
  rfl

theorem view_boostOwner {futex owner : Word}
    (queued : ∀ queue, (state.whereabouts owner).inQueue queue ↔
      (state.whereabouts owner).currentQueue = some queue) :
    (schedulerBoostOwner futex owner state).view = state.view.boost futex owner := by
  simp only [schedulerBoostOwner, View.boost, ← view_linkOwned]
  split
  · rename_i boosts
    rw [view_reprioritize (by simpa using queued)]
    exact (if_pos boosts).symm
  · rename_i enough
    exact (if_neg enough).symm

theorem view_block [NeZero cores] (placed : Placed state) {current futex value ticks : Word}
    (inNoQueue : (state.whereabouts current).inQueue = fun _ => False) {next : Plain cores}
    (done : schedulerBlock current futex value ticks state = some next) :
    next.view = state.view.wait current futex value := by
  simp only [schedulerBlock] at done
  simp only [View.wait]
  rw [← view_enqueueWaiter ticks]
  split at done
  · rename_i inherits
    split at done
    · obtain rfl := Option.some_inj.mp done
      rw [view_boostOwner]
      · exact (if_pos inherits).symm
      · intro queue
        by_cases isCurrent : untag value = current
        · simpa [isCurrent, inNoQueue] using eq_comm
        · simpa [isCurrent] using (placed (untag value)).queued queue
    · cases done
  · rename_i plain
    obtain rfl := Option.some_inj.mp done
    exact (if_neg plain).symm

theorem view_restore (placed : Placed state) {futex : Word} {next : Plain cores}
    (done : schedulerRestore futex state = some next) :
    state.view.restore futex = some next.view := by
  simp only [schedulerRestore] at done
  split at done
  · rename_i inherits
    simp only [schedulerRestoreOwner] at done
    split at done
    · obtain ⟨owned, walked, rfl⟩ := Option.map_eq_some_iff.mp done
      rw [view_reprioritize (by simpa using (placed (untag (state.futexValue futex))).queued)]
      exact (if_pos inherits).trans (Option.map_eq_some_iff.mpr ⟨owned, walked, rfl⟩)
    · cases done
  · rename_i plain
    obtain rfl := Option.some_inj.mp done
    exact if_neg plain

@[simp]
theorem view_trackOwner {futex task : Word} :
    (schedulerTrackOwner futex task state).view = state.view.trackOwner futex task := by
  simp only [schedulerTrackOwner]
  split
  · rename_i tracks
    exact View.ext rfl rfl rfl rfl rfl (if_pos tracks).symm rfl
  · rename_i plain
    exact View.ext rfl rfl rfl rfl rfl (if_neg plain).symm rfl

theorem view_adopt {futex task : Word}
    (queued : ∀ queue, (state.whereabouts task).inQueue queue ↔
      (state.whereabouts task).currentQueue = some queue) :
    (schedulerAdopt futex task state).view = state.view.adopt futex task := by
  simp only [schedulerAdopt]
  split
  · rename_i contended
    rw [view_reprioritize (by simpa using queued)]
    exact (if_pos contended).symm
  · rename_i free
    exact (if_neg free).symm

theorem view_wakeWaiter {futex task : Word} :
    (schedulerWakeWaiter futex task (schedQueueRemove task state)).view =
      ((state.view.remove task).trackOwner futex task).adopt futex task := by
  simp only [schedulerWakeWaiter, view_queuePush_ready, view_setTaskState, view_timerRemove]
  rw [view_adopt (by simp), view_trackOwner, view_queueRemove]

theorem view_wakeWaiters (futex : Word) (all : Bool) (fuel woken : Nat) :
    (schedulerWakeWaiters futex all fuel woken state).1.view =
      View.wakeWaiters futex all fuel state.view := by
  induction fuel generalizing woken state with
  | zero => rfl
  | succ fuel ih =>
      have waiters : state.view.waiters futex = state.queue (.waiters futex) := rfl
      simp only [schedulerWakeWaiters, schedQueuePop, View.wakeWaiters, waiters]
      cases state.queue (.waiters futex) with
      | nil => rfl
      | cons task rest =>
          simp only [List.head?_cons, Option.map_some]
          rw [← view_wakeWaiter]
          split
          · rename_i last
            exact (if_pos last).symm
          · rename_i more
            exact (ih _).trans (if_neg more).symm

theorem view_trackContention (futex : Word) :
    (schedulerTrackContention futex state).view = state.view.trackContention futex := by
  simp only [schedulerTrackContention]
  split
  · rename_i tracks
    split
    · rename_i empty
      refine View.ext rfl rfl rfl rfl rfl ?_ rfl
      exact ((if_pos tracks).trans (congrArg (fun value => (state.view.setValue futex value).memory)
        (if_pos empty))).symm
    · rename_i contended
      refine View.ext rfl rfl rfl rfl rfl ?_ rfl
      exact ((if_pos tracks).trans (congrArg (fun value => (state.view.setValue futex value).memory)
        (if_neg contended))).symm
  · rename_i plain
    exact View.ext rfl rfl rfl rfl rfl (if_neg plain).symm rfl

end Services

end PicoToolkit
