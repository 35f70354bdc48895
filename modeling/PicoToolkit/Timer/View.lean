import PicoToolkit.Scheduler.Answer

/-!
The timer list by itself: its entries, their expiry times, the expiry time the scheduler caches for
the tick handler, and the tick counter.
-/

namespace PicoToolkit

open Ring Transition

@[ext]
structure TimerView where
  entries : List Word
  expires : Word → Word
  closest : Word
  now : Word

def State.timerView {R : Type → Type → Type} [Store R] {cores : Nat} [NeZero cores]
    (state : State R cores) : TimerView where
  entries := state.timerList
  expires task := (state.task task).timerExpires
  closest := state.timerExpires
  now := schedulerGetTicks state

namespace TimerView

def first (view : TimerView) : Word :=
  match view.entries with
  | [] => BitVec.ofNat 32 uint32Max
  | entry :: _ => view.expires entry

def refresh (view : TimerView) : TimerView := { view with closest := view.first }

def remove (view : TimerView) (task : Word) : TimerView :=
  { view with entries := view.entries.filter (· ≠ task) }.refresh

def insert (view : TimerView) (task : Word) : List Word :=
  insertEntry (view.entries.find? fun entry => decide (view.expires entry > view.expires task))
    task view.entries

def push (view : TimerView) (task delay : Word) : TimerView :=
  let view := { view with
    entries := view.entries.filter (· ≠ task)
    expires := Function.update view.expires task (view.now + delay) }
  { view with entries := view.insert task }.refresh

def Cached (view : TimerView) : Prop := view.closest = view.first

structure Shrinks (view next : TimerView) : Prop where
  entries : next.entries.Sublist view.entries
  expires : ∀ task ∈ next.entries, next.expires task = view.expires task
  cached : view.Cached → next.Cached

theorem Shrinks.refl (view : TimerView) : view.Shrinks view :=
  ⟨List.Sublist.refl _, fun _ _ => rfl, id⟩

theorem Shrinks.trans {view middle next : TimerView} (left : view.Shrinks middle)
    (right : middle.Shrinks next) : view.Shrinks next := by
  refine ⟨right.entries.trans left.entries, fun task member => ?_, right.cached ∘ left.cached⟩
  exact (right.expires task member).trans (left.expires task (right.entries.subset member))

theorem Shrinks.remove (view : TimerView) (task : Word) : view.Shrinks (view.remove task) :=
  ⟨List.filter_sublist, fun _ _ => rfl, fun _ => rfl⟩

end TimerView

variable {cores : Nat} [NeZero cores] {state next : Plain cores} {core : Fin cores}
  {task other : Word}

theorem timerView_setTask (change : Task → Task)
    (same : (change (state.task task)).timerExpires = (state.task task).timerExpires) :
    (state.setTask task change).timerView = state.timerView := by
  refine TimerView.ext rfl ?_ rfl rfl
  funext other
  by_cases touched : other = task
  · subst other
    simp [State.timerView, State.setTask, same]
  · simp [State.timerView, State.setTask, touched]

theorem timerView_setCore (change : CoreLocal → CoreLocal)
    (same : (change (state.coreLocal core)).ticks = (state.coreLocal core).ticks) :
    (state.setCore core change).timerView = state.timerView := by
  refine TimerView.ext rfl rfl rfl ?_
  simp only [State.timerView, schedulerGetTicks, State.setCore, Function.update_apply]
  split
  · rename_i isFirst
    rw [same, isFirst]
  · rfl

@[simp]
theorem timerView_setTaskState (new : TaskState) :
    (setTaskState task new state).timerView = state.timerView := timerView_setTask _ rfl

@[simp]
theorem timerView_setTaskStateOff (new : TaskState) :
    (setTaskStateOff task new state).timerView = state.timerView := timerView_setTask _ rfl

@[simp]
theorem timerView_setResult (result : Result) :
    (setResult task result state).timerView = state.timerView := timerView_setTask _ rfl

@[simp]
theorem timerView_returnResult (result : Result) :
    (returnResult core result state).timerView = state.timerView := by
  rw [returnResult]
  split
  · rfl
  · exact timerView_setResult result

@[simp]
theorem timerView_requestSwitch :
    (schedulerRequestSwitch core state).timerView = state.timerView := timerView_setCore _ rfl

@[simp]
theorem timerView_setCurrent (current : Option Word) :
    (schedSetCurrent core current state).timerView = state.timerView := timerView_setCore _ rfl

@[simp]
theorem timerView_setPc (pc : SwitchPc) : (setPc core pc state).timerView = state.timerView :=
  timerView_setCore _ rfl

@[simp]
theorem timerView_queueRemove : (schedQueueRemove task state).timerView = state.timerView := by
  refine TimerView.ext rfl ?_ rfl rfl
  funext other
  by_cases touched : other = task
  · subst other
    simp [State.timerView, schedQueueRemove, State.setTask]
  · simp [State.timerView, schedQueueRemove, State.setTask, touched]

@[simp]
theorem timerView_queuePush (queue : QueueId) :
    (schedQueuePush queue task state).timerView = state.timerView := by
  refine TimerView.ext rfl ?_ rfl rfl
  funext other
  by_cases touched : other = task
  · subst other
    simp [State.timerView, schedQueuePush, State.setTask]
  · simp [State.timerView, schedQueuePush, State.setTask, touched]

@[simp]
theorem timerView_reprioritize (newPriority : Nat) :
    (schedQueueReprioritize task newPriority state).timerView = state.timerView := by
  rw [schedQueueReprioritize]
  have changed : (state.setTask task fun entry =>
      { entry with currentPriority := newPriority }).timerView = state.timerView :=
    timerView_setTask _ rfl
  split
  · exact changed
  · rw [timerView_queuePush, timerView_queueRemove, changed]

@[simp]
theorem timerView_timerRemove :
    (schedulerTimerRemove task state).timerView = state.timerView.remove task := rfl

theorem timerView_insert :
    ({ state.linkTimer (laterTimer task state) task with
        timerExpires := closestTimer (state.linkTimer (laterTimer task state) task) } :
      Plain cores).timerView =
      { state.timerView with entries := state.timerView.insert task }.refresh := by
  have entries : (state.linkTimer (laterTimer task state) task).timerList =
      state.timerView.insert task := by
    simp only [State.linkTimer, State.timerList]
    exact Family.insert_self () _ task
  refine TimerView.ext entries rfl ?_ rfl
  simp only [State.timerView, TimerView.refresh, TimerView.first, closestTimer, entries]
  rfl

theorem timerView_timerPush (delay : Word) :
    (schedulerTimerPush task delay state).timerView = state.timerView.push task delay := by
  have armed : ((state.unlinkTimer task).setTask task fun entry =>
      { entry with timerExpires := schedulerGetTicks state + delay }).timerView =
      { state.timerView with
        entries := state.timerView.entries.filter (· ≠ task)
        expires := Function.update state.timerView.expires task (state.timerView.now + delay) } := by
    refine TimerView.ext rfl ?_ rfl rfl
    funext other
    by_cases touched : other = task
    · subst other
      simp [State.timerView, State.setTask]
    · simp [State.timerView, State.setTask, State.unlinkTimer, touched]
  have pushed := @timerView_insert cores _ ((state.unlinkTimer task).setTask task fun entry =>
    { entry with timerExpires := schedulerGetTicks state + delay }) task
  rw [armed] at pushed
  exact pushed

theorem TimerView.Shrinks.same {view next : TimerView} (same : next = view) : view.Shrinks next :=
  same ▸ .refl view

theorem timerView_linkOwned {futex owner : Word} :
    (schedulerLinkOwned futex owner state).timerView = state.timerView := by
  rw [schedulerLinkOwned]
  split
  · rfl
  · rfl

theorem timerView_boostOwner {futex owner : Word} :
    (schedulerBoostOwner futex owner state).timerView = state.timerView := by
  simp only [schedulerBoostOwner]
  split
  · rw [timerView_reprioritize, timerView_linkOwned]
  · exact timerView_linkOwned

theorem timerView_wakeWaiter {futex : Word} :
    (schedulerWakeWaiter futex task state).timerView = state.timerView.remove task := by
  have tracked : (schedulerTrackOwner futex task state).timerView = state.timerView := by
    simp only [schedulerTrackOwner]
    split
    · rfl
    · rfl
  have adopted : (schedulerAdopt futex task (schedulerTrackOwner futex task state)).timerView =
      state.timerView := by
    rw [schedulerAdopt]
    split
    · exact (timerView_reprioritize _).trans tracked
    · exact tracked
  simp [schedulerWakeWaiter, adopted]

open TimerView (Shrinks)

theorem shrinks_wakeFutex {futex : Word} {all : Bool} {woken : Nat}
    (done : schedulerWakeFutex futex all state = some (next, woken)) :
    state.timerView.Shrinks next.timerView := by
  refine wakeFutex_keeps (motive := fun after => state.timerView.Shrinks after.timerView)
    (fun owner newPriority => .same (timerView_reprioritize _)) (fun after task _ shrinks => ?_)
    (fun _ _ _ shrinks => shrinks) (.refl _) done
  rw [timerView_wakeWaiter, timerView_queueRemove]
  exact shrinks.trans (.remove _ _)

def armed {R : Type → Type → Type} [Store R] {cores : Nat} (state : State R cores) :
    Action cores → Option (Word × Word)
  | .sleep core ticks =>
      if ticks ≠ 0 ∧ ticks < schedulerWaitForever then
        (state.currentTask core).map fun task => (task, ticks)
      else none
  | .futexWait core futex value ticks =>
      if ticks < schedulerWaitForever ∧ (state.futexValue futex = value ∨
          state.futexValue futex = waitValue (state.futex futex) value) then
        (state.currentTask core).map fun task => (task, ticks)
      else none
  | _ => none

theorem timerView_timerStart (ticks : Word) :
    (schedulerTimerStart task ticks state).timerView =
      if ticks < schedulerWaitForever then state.timerView.push task ticks
      else state.timerView := by
  rw [schedulerTimerStart]
  split
  · exact timerView_timerPush ticks
  · rfl

theorem timerView_suspendTask {current : Word} :
    (schedulerSuspendTask current task state).timerView =
      if task ≠ current then state.timerView.remove task else state.timerView := by
  simp only [schedulerSuspendTask]
  split
  · simp
  · simp

theorem timerView_suspendSvc {task ticks current : Word}
    (runs : state.currentTask core = some current)
    (done : schedulerSuspendSvc core task ticks state = some next) :
    next.timerView =
      let view := if schedulerTaskAlive task state ∧ task ≠ current then state.timerView.remove task
        else state.timerView
      if schedulerTaskAlive task state ∧ ticks < schedulerWaitForever then view.push task ticks
      else view := by
  have runs' : schedGetCurrent core state = some current := runs
  simp only [schedulerSuspendSvc, runs'] at done
  split at done
  · rename_i alive
    obtain rfl := Option.some_inj.mp done
    rw [timerView_requestSwitch, timerView_setCurrent, timerView_timerStart, timerView_suspendTask,
      timerView_setResult]
    simp only [alive, true_and]
  · rename_i dead
    obtain rfl := Option.some_inj.mp done
    rw [timerView_setResult]
    simp [dead]

theorem timerView_block {current futex value ticks : Word}
    (done : schedulerBlock current futex value ticks state = some next) :
    next.timerView =
      if ticks < schedulerWaitForever then state.timerView.push current ticks
      else state.timerView := by
  have enqueued : (schedulerEnqueueWaiter current futex value ticks state).timerView =
      if ticks < schedulerWaitForever then state.timerView.push current ticks
      else state.timerView := by
    simp only [schedulerEnqueueWaiter, timerView_queuePush, timerView_setTaskStateOff,
      timerView_timerStart]
    rfl
  simp only [schedulerBlock] at done
  split at done
  · split at done
    · obtain rfl := Option.some_inj.mp done
      exact timerView_boostOwner.trans enqueued
    · cases done
  · obtain rfl := Option.some_inj.mp done
    exact enqueued

theorem timerView_waitSvc {futex expected ticks current : Word}
    (runs : state.currentTask core = some current)
    (done : schedulerWaitSvc core futex expected ticks state = some next) :
    next.timerView =
      if ticks < schedulerWaitForever ∧ (state.futexValue futex = expected ∨
          state.futexValue futex = waitValue (state.futex futex) expected) then
        state.timerView.push current ticks
      else state.timerView := by
  have runs' : schedGetCurrent core state = some current := runs
  simp only [schedulerWaitSvc, runs'] at done
  split at done
  · obtain ⟨after, served, rfl⟩ := Option.map_eq_some_iff.mp done
    rw [timerView_requestSwitch, timerView_setCurrent]
    split at served
    · rename_i blocks
      have seen : state.futexValue futex = expected ∨
          state.futexValue futex = waitValue (state.futex futex) expected := blocks
      rw [timerView_block served, timerView_setResult]
      simp only [seen, and_true]
    · rename_i triggered
      have unseen : ¬(state.futexValue futex = expected ∨
          state.futexValue futex = waitValue (state.futex futex) expected) := triggered
      obtain rfl := Option.some_inj.mp served
      rw [if_neg fun both => unseen both.2, timerView_queuePush, timerView_setTaskState,
        timerView_setResult]
  · cases done

theorem shrinks_wakeSvc {futex : Word} {all : Bool}
    (done : schedulerWakeSvc core futex all state = some next) :
    state.timerView.Shrinks next.timerView := by
  simp only [schedulerWakeSvc] at done
  split at done
  · obtain ⟨⟨after, woken⟩, served, rfl⟩ := Option.map_eq_some_iff.mp done
    have shrinks := shrinks_wakeFutex served
    simp only
    split
    · rwa [timerView_requestSwitch, timerView_returnResult]
    · rwa [timerView_returnResult]
  · cases done

theorem shrinks_resumeSvc :
    state.timerView.Shrinks (schedulerResumeSvc core task state).timerView := by
  simp only [schedulerResumeSvc]
  split
  · rw [timerView_requestSwitch]
    split
    · rw [timerView_returnResult, timerView_queuePush, timerView_setTaskState]
      split
      · rw [timerView_setResult, timerView_queueRemove, timerView_timerRemove]
        exact .remove _ _
      · rw [timerView_queueRemove, timerView_timerRemove]
        exact .remove _ _
    · exact .same (timerView_returnResult _)
  · exact .same (timerView_returnResult _)

theorem shrinks_terminateSvc :
    state.timerView.Shrinks (schedulerTerminateSvc core task state).timerView := by
  have unlisted : ∀ state : Plain cores, (state.unlistTask task).timerView = state.timerView :=
    fun _ => rfl
  simp only [schedulerTerminateSvc]
  split
  · split
    · rw [timerView_requestSwitch, timerView_setCurrent, unlisted, timerView_timerRemove,
        timerView_queueRemove, timerView_setTaskStateOff, timerView_returnResult]
      exact .remove _ _
    · rw [unlisted, timerView_timerRemove, timerView_queueRemove, timerView_setTaskStateOff,
        timerView_returnResult]
      exact .remove _ _
  · exact .same (timerView_returnResult _)

theorem timerView_prioritySvc (priority : Nat) :
    (schedulerPrioritySvc core task priority state).timerView = state.timerView := by
  simp only [schedulerPrioritySvc]
  split
  · rw [timerView_requestSwitch, timerView_reprioritize, timerView_setTask _ rfl,
      timerView_returnResult]
  · exact timerView_returnResult _

theorem shrinks_create {descriptor : TaskDescriptor} (untimed : task ∉ state.timerList) :
    state.timerView.Shrinks (schedulerCreate core task descriptor state).timerView := by
  have initialised : state.timerView.Shrinks
      ((schedulerInitTask task descriptor state).listTask task).timerView := by
    have expires : ∀ other ∈ state.timerList,
        (((schedulerInitTask task descriptor state).listTask task).task other).timerExpires =
          (state.task other).timerExpires := by
      intro other member
      have different : other ≠ task := fun same => untimed (same ▸ member)
      simp [schedulerInitTask, State.listTask, State.setTask, different]
    refine ⟨List.Sublist.refl _, expires, fun cached => ?_⟩
    have sameFirst : ((schedulerInitTask task descriptor state).listTask task).timerView.first =
        state.timerView.first := by
      simp only [TimerView.first]
      have entries : ((schedulerInitTask task descriptor state).listTask task).timerView.entries =
          state.timerView.entries := rfl
      rw [entries]
      split
      · rfl
      · rename_i head rest isFirst
        refine expires head ?_
        have member : head ∈ state.timerView.entries := by simp [isFirst]
        exact member
    exact cached.trans sameFirst.symm
  refine initialised.trans (.same ?_)
  rw [schedulerCreate]
  split
  · rw [schedulerCreatePrimordial, timerView_setCurrent, timerView_setTask _ rfl]
  · simp only [schedulerCreateSvc, timerView_returnResult]
    split
    · rw [timerView_setTaskState]
    · split
      · rw [timerView_queuePush, timerView_setTaskState]
      · split
        · rw [timerView_requestSwitch, timerView_queuePush, timerView_setTaskState]
        · rw [timerView_queuePush, timerView_setTaskState]

theorem timerView_switchEnter :
    (schedulerSwitchEnter core state).timerView = state.timerView := by
  have cleared : (schedSetCurrent core none (state.setCore core fun coreLocal =>
      { coreLocal with pendSv := false })).timerView = state.timerView := by
    rw [timerView_setCurrent, timerView_setCore _ rfl]
  simp only [schedulerSwitchEnter]
  split
  · rw [timerView_setPc, cleared]
  · split
    · rw [timerView_setCurrent, cleared]
    · rw [timerView_setPc, timerView_queuePush, timerView_setTaskStateOff, cleared]

theorem timerView_switchIdle {lastTask : Option Word} :
    (schedulerSwitchIdle core lastTask state).timerView = state.timerView := by
  simp only [schedulerSwitchIdle]
  split
  · have stopped : ({ state with running := state.running - 1 } : Plain cores).timerView =
        state.timerView := rfl
    rw [schedulerStop, timerView_setCore _ rfl, stopped]
  · exact timerView_setPc _

theorem timerView_dispatch {lastTask : Option Word} :
    (schedulerDispatch core task lastTask state).timerView = state.timerView := by
  have kicked : ∀ state : Plain cores,
      (schedulerKickCores core state).timerView = state.timerView := by
    intro state
    refine TimerView.ext rfl rfl rfl ?_
    simp only [State.timerView, schedulerGetTicks, schedulerKickCores]
    split
    · rfl
    · rfl
  rw [schedulerDispatch, kicked, schedulerOccupy, timerView_setCore _ rfl, timerView_setTask _ rfl]

theorem timerView_switchPick (placed : Placed state) {lastTask : Option Word} :
    (schedulerSwitchPick core lastTask state).timerView = state.timerView := by
  rw [schedulerSwitchPick]
  split
  · exact timerView_switchIdle
  · rename_i ready popped found
    obtain ⟨first, isFirst, same⟩ := Option.map_eq_some_iff.mp found
    obtain ⟨rfl, rfl⟩ := Prod.mk.inj same
    have isReady : (state.whereabouts first).state = .ready :=
      (placed first).ready.mpr (((placed first).queued _).mp (List.mem_of_find?_eq_some isFirst))
    have untimed : first ∉ state.timerList :=
      (placed first).untimed (by simp [isReady]) (by simp [isReady])
    split
    · rw [timerView_dispatch, timerView_queueRemove]
    · have evicted : (schedulerEvict first (schedQueueRemove first state)).timerView =
          state.timerView := by
        have unlinked : ∀ state : Plain cores, first ∉ state.timerList →
            ((state.unlinkTimer first).unlistTask first).timerView = state.timerView := by
          intro state untimed
          refine TimerView.ext ?_ rfl rfl rfl
          exact filter_absent untimed
        have marked : (schedQueueRemove first (setResult first (.error .efault)
            (setTaskState first .terminated (schedQueueRemove first state)))).timerView =
            state.timerView := by
          rw [timerView_queueRemove, timerView_setResult, timerView_setTaskState,
            timerView_queueRemove]
        rw [← marked]
        exact unlinked _ untimed
      rw [timerView_switchIdle, evicted]

theorem timerView_switchTimers {lastTask : Option Word} :
    (schedulerSwitchTimers core lastTask state).timerView =
      (expiredTask state).elim state.timerView state.timerView.remove := by
  rw [schedulerSwitchTimers, timerPop_eq]
  cases expiredTask state with
  | none => exact timerView_setPc _
  | some expired =>
      simp only [Option.map_some, Option.elim_some, timerView_queuePush, timerView_setResult,
        timerView_setTaskState, timerView_queueRemove, timerView_timerRemove]

theorem shrinks_switchDrain {index : Nat} {lastTask : Option Word}
    (done : schedulerSwitchDrain core index lastTask state = some next) :
    state.timerView.Shrinks next.timerView := by
  simp only [schedulerSwitchDrain] at done
  split at done
  · split at done
    · obtain rfl := Option.some_inj.mp done
      exact .same (timerView_setCore _ rfl)
    · obtain ⟨⟨after, woken⟩, served, rfl⟩ := Option.map_eq_some_iff.mp done
      have shrinks := shrinks_wakeFutex served
      rw [timerView_setCore _ rfl] at shrinks
      rwa [timerView_setCore _ rfl]
  · obtain rfl := Option.some_inj.mp done
    exact .same (timerView_setPc _)

theorem shrinks_switch (placed : Placed state) (done : schedulerSwitch core state = some next) :
    state.timerView.Shrinks next.timerView := by
  rw [schedulerSwitch] at done
  split at done
  · cases done
  · exact shrinks_switchDrain done
  · obtain rfl := Option.some_inj.mp done
    rw [timerView_switchTimers]
    cases expiredTask state with
    | none => exact .refl _
    | some expired => exact .remove _ expired
  · obtain rfl := Option.some_inj.mp done
    exact .same (timerView_switchPick placed)
  · split at done
    · obtain rfl := Option.some_inj.mp done
      exact .same (timerView_setCore _ rfl)
    · cases done

theorem shrinks_tick : state.timerView.Shrinks (schedulerTick core state).timerView := by
  have checked : ∀ state : Plain cores,
      (schedulerTickTimers core state).timerView = state.timerView := by
    intro state
    rw [schedulerTickTimers]
    split
    · exact timerView_requestSwitch
    · rfl
  have counted : ∀ state : Plain cores,
      (schedulerTickSlice core state).timerView = state.timerView := by
    intro state
    have less : (state.setCore core fun coreLocal =>
        { coreLocal with sliceExpires := coreLocal.sliceExpires - 1 }).timerView =
        state.timerView := timerView_setCore _ rfl
    simp only [schedulerTickSlice]
    split
    · split
      · rw [timerView_requestSwitch, less]
      · exact less
    · rfl
  simp only [schedulerTick]
  split
  · rw [counted, checked]
    exact ⟨List.Sublist.refl _, fun _ _ => rfl, id⟩
  · exact .refl _

theorem timerView_yield : (schedulerYield core state).timerView = state.timerView := by
  rw [schedulerYield]
  split
  · rfl
  · exact timerView_requestSwitch

theorem timerView_start : (schedulerStart core state).timerView = state.timerView := by
  have counted : ({ state with running := state.running + 1 } : Plain cores).timerView =
    state.timerView := rfl
  rw [schedulerStart, timerView_requestSwitch, timerView_setCore _ rfl, counted]

theorem timerView_sleep (placed : Placed state) {current ticks : Word}
    (runs : state.currentTask core = some current) (done : schedulerSleep core ticks state = some next) :
    next.timerView =
      if ticks ≠ 0 ∧ ticks < schedulerWaitForever then state.timerView.push current ticks
      else state.timerView := by
  have listed : schedulerTaskAlive current state := by
    have running : (state.task current).state = .running := placed.running runs
    exact decide_eq_true ((placed current).listed.mpr (by simp [State.whereabouts, running]))
  rw [schedulerSleep] at done
  split at done
  · rename_i none
    obtain rfl := Option.some_inj.mp done
    rw [if_neg fun both => both.1 none]
    exact timerView_yield
  · rename_i some
    have view := timerView_suspendSvc runs done
    rw [taskOrCurrent_current runs, if_pos rfl] at view
    simp only [listed, ne_eq, not_true_eq_false, and_false, if_false, true_and] at view
    rw [view]
    simp only [ne_eq, some, not_false_eq_true, true_and]

theorem shrinks_suspend {current suspended : Word} (runs : state.currentTask core = some current)
    (done : schedulerSuspend core suspended state = some next) :
    state.timerView.Shrinks next.timerView := by
  simp only [schedulerSuspend] at done
  split at done
  · obtain rfl := Option.some_inj.mp done
    exact .same (timerView_returnResult _)
  · have view := timerView_suspendSvc runs done
    simp only [(by decide : ¬schedulerWaitForever < schedulerWaitForever), and_false, if_false]
      at view
    rw [view]
    split
    · exact .remove _ _
    · exact .refl _

theorem timerView_wakeDeferred (futex : Word) (all : Bool) :
    (schedulerFutexWakeDeferred core futex all state).timerView = state.timerView := by
  rw [schedulerFutexWakeDeferred]
  split
  · rfl
  · split
    · rfl
    · rw [timerView_requestSwitch, timerView_setCore _ rfl]

/-- A step of the scheduler starts the timer that a call arms, and otherwise only ends timers. -/
theorem timer_step (placed : Placed state) {action : Action cores}
    (done : step state action = some next) :
    match armed state action with
    | none => state.timerView.Shrinks next.timerView
    | some (task, delay) => task ∉ state.timerList ∧
        next.timerView = state.timerView.push task delay := by
  have idle : ∀ {core current}, state.currentTask core = some current →
      current ∉ state.timerList := by
    intro core current runs timed
    have none := (placed.running_free runs).2.2
    exact none.mp timed
  cases schedulerSteps done with
  | create core task descriptor possible =>
      simp only [creatable, Bool.and_eq_true, decide_eq_true_eq] at possible
      have fresh : (state.task task).state = .terminated := possible.1.1.1.2
      exact shrinks_create fun timed => (placed.terminated fresh).2.2.2.mp timed
  | start core _ _ => exact .same timerView_start
  | yield core _ => exact .same timerView_yield
  | sleep core ticks possible done =>
      obtain ⟨current, runs⟩ := State.exists_current possible
      have view := timerView_sleep placed runs done
      simp only [armed, runs, Option.map_some]
      split at view
      · rename_i arms
        rw [if_pos arms]
        exact ⟨idle runs, view⟩
      · rename_i plain
        rw [if_neg plain]
        exact .same view
  | suspend core suspended possible done =>
      obtain ⟨current, runs⟩ := State.exists_current possible
      exact shrinks_suspend runs done
  | resume core resumed _ _ => exact shrinks_resumeSvc
  | terminate core terminated _ =>
      simp only [schedulerTerminate, armed]
      split
      · exact .same (timerView_returnResult _)
      · exact shrinks_terminateSvc
  | setPriority core changed priority _ =>
      simp only [schedulerSetPriority, armed]
      split
      · exact .same (timerView_returnResult _)
      · exact .same (timerView_prioritySvc _)
  | setFlags changed mask _ => exact .same (timerView_setTask _ rfl)
  | clearFlags changed mask _ => exact .same (timerView_setTask _ rfl)
  | futexInit futex value flags _ => exact .same rfl
  | futexWait core futex value ticks possible done =>
      obtain ⟨current, runs⟩ := State.exists_current possible
      have view := timerView_waitSvc runs done
      simp only [armed, runs, Option.map_some]
      split at view
      · rename_i blocks
        rw [if_pos blocks]
        exact ⟨idle runs, view⟩
      · rename_i plain
        rw [if_neg plain]
        exact .same view
  | futexWake core futex all _ done => exact shrinks_wakeSvc done
  | lock => exact .same rfl
  | unlock => exact .same rfl
  | lockRestore lock => exact .same rfl
  | store address value => exact .same rfl
  | smashStack smashed => exact .same (timerView_setTask _ rfl)
  | tick core => exact shrinks_tick
  | interruptWake core futex all _ => exact .same (timerView_wakeDeferred futex all)
  | switchEnter core _ _ _ => exact .same timerView_switchEnter
  | switchStep core done => exact shrinks_switch placed done

end PicoToolkit
