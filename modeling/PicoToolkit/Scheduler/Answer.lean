import PicoToolkit.Inheritance.Event
import PicoToolkit.Inheritance.Order

/-!
Register `r0` of a task that has made a service call.  Until the task runs again, only the end of its
wait by a timeout or by `scheduler_resume` changes what the call returns.
-/

namespace PicoToolkit

open Ring Transition

/-- What the task finds in `r0` when it runs again. -/
def State.answer {R : Type → Type → Type} [Store R] {cores : Nat} (state : State R cores)
    (task : Word) : Result := (state.task task).r0

def Action.caller {cores : Nat} : Action cores → Option (Fin cores)
  | .create core _ _ | .yield core | .sleep core _ | .suspend core _ | .resume core _
  | .terminate core _ | .setPriority core _ _ | .futexWait core _ _ _ | .futexWake core _ _ =>
      some core
  | _ => none

variable {cores : Nat} {state next : Plain cores} {core : Fin cores} {task other : Word}

theorem answer_setTask (change : Task → Task)
    (same : (change (state.task task)).r0 = (state.task task).r0) :
    (state.setTask task change).answer other = state.answer other := by
  by_cases touched : other = task
  · subst other
    simp [State.answer, State.setTask, same]
  · simp [State.answer, State.setTask, touched]

@[simp]
theorem answer_setTaskState (new : TaskState) :
    (setTaskState task new state).answer other = state.answer other := answer_setTask _ rfl

@[simp]
theorem answer_setTaskStateOff (new : TaskState) :
    (setTaskStateOff task new state).answer other = state.answer other := answer_setTask _ rfl

@[simp]
theorem answer_setResult (result : Result) :
    (setResult task result state).answer other =
      if other = task then result else state.answer other := by
  by_cases same : other = task
  · subst other
    simp [setResult, State.answer, State.setTask]
  · simp [setResult, State.answer, State.setTask, same]

theorem answer_returnResult (result : Result) (away : state.currentTask core ≠ some other) :
    (returnResult core result state).answer other = state.answer other := by
  rw [returnResult]
  split
  · rfl
  · rename_i current runs
    rw [answer_setResult, if_neg]
    intro same
    exact away (same ▸ runs)

@[simp]
theorem answer_queueRemove :
    (schedQueueRemove task state).answer other = state.answer other :=
  answer_setTask _ rfl

@[simp]
theorem answer_queuePush (queue : QueueId) :
    (schedQueuePush queue task state).answer other = state.answer other := by
  by_cases same : other = task
  · subst other
    simp [schedQueuePush, State.answer, State.setTask]
  · simp [schedQueuePush, State.answer, State.setTask, same]

@[simp]
theorem answer_reprioritize (newPriority : Nat) :
    (schedQueueReprioritize task newPriority state).answer other = state.answer other := by
  rw [schedQueueReprioritize]
  have changed : (state.setTask task fun entry =>
      { entry with currentPriority := newPriority }).answer other = state.answer other :=
    answer_setTask _ rfl
  split
  · exact changed
  · rw [answer_queuePush, answer_queueRemove, changed]

@[simp]
theorem answer_timerRemove :
    (schedulerTimerRemove task state).answer other = state.answer other := rfl

@[simp]
theorem answer_timerStart [NeZero cores] (ticks : Word) :
    (schedulerTimerStart task ticks state).answer other = state.answer other := by
  rw [schedulerTimerStart]
  split
  · by_cases same : other = task
    · subst other
      simp [schedulerTimerPush, State.linkTimer, State.unlinkTimer, State.answer, State.setTask]
    · simp [schedulerTimerPush, State.linkTimer, State.unlinkTimer, State.answer, State.setTask, same]
  · rfl

/-- The call of the task has the same result as before, and the task has no timer that it did not
have in the same task state. -/
structure Keeps (state next : Plain cores) (task : Word) : Prop where
  answer : next.answer task = state.answer task
  timed : (next.whereabouts task).timed → (state.whereabouts task).timed ∧
    (next.whereabouts task).state = (state.whereabouts task).state

theorem Keeps.refl (state : Plain cores) (task : Word) : Keeps state state task :=
  ⟨rfl, fun timed => ⟨timed, rfl⟩⟩

theorem Keeps.trans {middle : Plain cores} (first : Keeps state middle task)
    (second : Keeps middle next task) : Keeps state next task := by
  refine ⟨second.answer.trans first.answer, fun timed => ?_⟩
  obtain ⟨before, stays⟩ := second.timed timed
  exact ⟨(first.timed before).1, stays.trans (first.timed before).2⟩

theorem Keeps.same (answer : next.answer task = state.answer task)
    (stays : next.whereabouts task = state.whereabouts task) : Keeps state next task := by
  refine ⟨answer, fun timed => ?_⟩
  rw [stays] at timed ⊢
  exact ⟨timed, rfl⟩

theorem Keeps.untimed (answer : next.answer task = state.answer task)
    (untimed : ¬(next.whereabouts task).timed) : Keeps state next task :=
  ⟨answer, fun timed => (untimed timed).elim⟩

@[simp]
theorem coreLocal_reprioritize (newPriority : Nat) :
    (schedQueueReprioritize task newPriority state).coreLocal = state.coreLocal := by
  simp only [schedQueueReprioritize]
  split
  · rfl
  · rfl

@[simp]
theorem coreLocal_wakeWaiter {futex : Word} :
    (schedulerWakeWaiter futex task state).coreLocal = state.coreLocal := by
  have tracked : (schedulerTrackOwner futex task state).coreLocal = state.coreLocal := by
    simp only [schedulerTrackOwner]
    split
    · rfl
    · rfl
  have adopted : (schedulerAdopt futex task (schedulerTrackOwner futex task state)).coreLocal =
      state.coreLocal := by
    rw [schedulerAdopt]
    split
    · exact (coreLocal_reprioritize _).trans tracked
    · exact tracked
  exact adopted

theorem coreLocal_wakeFutex {futex : Word} {all : Bool} {woken : Nat}
    (done : schedulerWakeFutex futex all state = some (next, woken)) :
    next.coreLocal = state.coreLocal :=
  wakeFutex_keeps (motive := fun after => after.coreLocal = state.coreLocal)
    (fun _ _ => coreLocal_reprioritize _) (fun _ _ _ same => coreLocal_wakeWaiter.trans same)
    (fun _ _ _ same => same) rfl done

theorem Keeps.reprioritize (placed : Placed state) (newPriority : Nat) :
    Keeps state (schedQueueReprioritize other newPriority state) task :=
  .same (answer_reprioritize newPriority) (whereabouts_reprioritize (placed other).queued newPriority)

theorem answer_adopt {futex : Word} :
    (schedulerAdopt futex task state).answer other = state.answer other := by
  simp only [schedulerAdopt]
  split
  · exact answer_reprioritize _
  · rfl

theorem answer_boostOwner {futex : Word} :
    (schedulerBoostOwner futex task state).answer other = state.answer other := by
  have linked : (schedulerLinkOwned futex task state).answer other = state.answer other := by
    rw [schedulerLinkOwned]
    split
    · rfl
    · rfl
  simp only [schedulerBoostOwner]
  split
  · exact (answer_reprioritize _).trans linked
  · exact linked

theorem answer_trackOwner {futex : Word} :
    (schedulerTrackOwner futex task state).answer other = state.answer other := by
  simp only [schedulerTrackOwner]
  split
  · rfl
  · rfl

theorem Keeps.wakeWaiter {futex : Word} :
    Keeps state (schedulerWakeWaiter futex other (schedQueueRemove other state)) task := by
  have answer : (schedulerWakeWaiter futex other (schedQueueRemove other state)).answer task =
      state.answer task := by
    simp [schedulerWakeWaiter, answer_adopt, answer_trackOwner]
  have adopted : ∀ task, (schedulerAdopt futex other (schedulerTrackOwner futex other
      (schedQueueRemove other state))).whereabouts task =
      (schedQueueRemove other state).whereabouts task := by
    intro task
    rw [whereabouts_adopt (by simp), whereabouts_trackOwner]
  by_cases same : task = other
  · subst task
    refine .untimed answer ?_
    simp [schedulerWakeWaiter, adopted]
  · refine .same answer ?_
    simp [schedulerWakeWaiter, adopted, same]

theorem Keeps.wakeFutex (placed : Placed state) {futex : Word} {all : Bool} {woken : Nat}
    (done : schedulerWakeFutex futex all state = some (next, woken)) : Keeps state next task := by
  refine wakeFutex_keeps (motive := fun after => Keeps state after task) (fun owner newPriority => ?_)
    (fun _ _ _ kept => kept.trans Keeps.wakeWaiter) (fun _ _ _ kept => kept.trans (.same rfl rfl))
    (.refl _ _) done
  have unlinked : Placed (state.setOwned fun links => schedListRemove links (.node futex)) :=
    placed.congr fun _ => whereabouts_setOwned _
  have kept : Keeps state (state.setOwned fun links => schedListRemove links (.node futex)) task :=
    .same rfl rfl
  exact kept.trans (Keeps.reprioritize unlinked _)

theorem Keeps.returned (result : Result) (away : state.currentTask core ≠ some task) :
    Keeps state (returnResult core result state) task :=
  .same (answer_returnResult result away) (whereabouts_returnResult core result)

theorem currentTask_requestSwitch {requested : Fin cores} :
    (schedulerRequestSwitch requested state).currentTask core = state.currentTask core := by
  by_cases same : core = requested
  · subst core
    simp [schedulerRequestSwitch, State.setCore, State.currentTask]
  · simp [schedulerRequestSwitch, State.setCore, State.currentTask, same]

theorem Keeps.requestSwitch : Keeps state (schedulerRequestSwitch core state) task :=
  .same rfl (whereabouts_requestSwitch core)

def departAnswer {R : Type → Type → Type} [Store R] (state : State R cores) (action : Action cores)
    (task : Word) : Result :=
  match action with
  | .resume _ _ => .error .ecanceled
  | .switchStep _ => .error .etimedout
  | _ => state.answer task

theorem Keeps.setCore (change : CoreLocal → CoreLocal)
    (current : (change (state.coreLocal core)).currentTask = (state.coreLocal core).currentTask)
    (pc : (change (state.coreLocal core)).pc = (state.coreLocal core).pc) :
    Keeps state (state.setCore core change) task :=
  .same rfl (whereabouts_setCore_same core change current pc)

theorem Keeps.onCores (answer : next.answer task = state.answer task)
    (timed : (next.whereabouts task).timed = (state.whereabouts task).timed)
    (stays : (next.whereabouts task).state = (state.whereabouts task).state) :
    Keeps state next task := by
  refine ⟨answer, fun isTimed => ⟨?_, stays⟩⟩
  rwa [← timed]

theorem Keeps.setPc (pc : SwitchPc) : Keeps state (setPc core pc state) task := by
  refine .onCores rfl ?_ ?_
  · rw [whereabouts_setPc]
  · rw [whereabouts_setPc]

theorem Keeps.setCurrent (current : Option Word) :
    Keeps state (schedSetCurrent core current state) task := by
  refine .onCores rfl ?_ ?_
  · rw [whereabouts_setCurrent]
  · rw [whereabouts_setCurrent]

theorem Keeps.switchIdle {lastTask : Option Word} :
    Keeps state (schedulerSwitchIdle core lastTask state) task := by
  simp only [schedulerSwitchIdle]
  split
  · exact .onCores rfl rfl rfl
  · exact .setPc _

theorem Keeps.suspendSvc [NeZero cores] {suspended ticks : Word}
    (away : state.currentTask core ≠ some task)
    (forever : state.currentTask core = some suspended ∨ ¬ticks < schedulerWaitForever)
    (done : schedulerSuspendSvc core suspended ticks state = some next) : Keeps state next task := by
  simp only [schedulerSuspendSvc] at done
  split at done
  · cases done
  · rename_i current runs
    have notCurrent : task ≠ current := fun same => away (same ▸ runs)
    split at done
    · obtain rfl := Option.some_inj.mp done
      refine Keeps.trans ?_ (Keeps.trans (Keeps.setCurrent none) Keeps.requestSwitch)
      have answer : (schedulerTimerStart suspended ticks (schedulerSuspendTask current suspended
          (setResult current (.value 0) state))).answer task = state.answer task := by
        simp only [answer_timerStart, schedulerSuspendTask]
        split
        · simp [notCurrent]
        · simp [notCurrent]
      by_cases same : suspended = current
      · subst suspended
        refine .same answer ?_
        simp [schedulerSuspendTask, notCurrent]
      · have lasting : ¬ticks < schedulerWaitForever := by
          rcases forever with isCurrent | lasting
          · exact (same (Option.some_inj.mp (isCurrent.symm.trans runs))).elim
          · exact lasting
        by_cases isTask : task = suspended
        · subst task
          refine .untimed answer ?_
          simp [whereabouts_suspendTask, same, lasting]
        · refine .same answer ?_
          simp [whereabouts_suspendTask, same, isTask, notCurrent]
    · obtain rfl := Option.some_inj.mp done
      refine .same ?_ (whereabouts_setResult _)
      simp [notCurrent]

theorem resumeSvc_keeps {resumed : Word} (away : state.currentTask core ≠ some task) :
    if task = resumed ∧ (state.task task).state = .blocked ∧ schedulerTaskAlive task state then
      ¬((schedulerResumeSvc core resumed state).whereabouts task).timed ∧
        (schedulerResumeSvc core resumed state).answer task = .error .ecanceled
    else Keeps state (schedulerResumeSvc core resumed state) task := by
  have returned : ∀ (next : Plain cores) (result : Result),
      next.currentTask core = state.currentTask core →
        Keeps next (schedulerRequestSwitch core (returnResult core result next)) task := by
    intro next result current
    rw [← current] at away
    exact (Keeps.returned result away).trans Keeps.requestSwitch
  simp only [schedulerResumeSvc]
  by_cases alive : schedulerTaskAlive resumed state
  · have sameState : ((schedQueueRemove resumed (schedulerTimerRemove resumed state)).task
        resumed).state = (state.task resumed).state := by
      simp [schedQueueRemove, State.setTask, schedulerTimerRemove, State.unlinkTimer]
    rw [if_pos alive, sameState]
    by_cases blocked : (state.task resumed).state = .blocked
    · simp only [blocked, true_or, if_true]
      have kept := returned (schedQueuePush .readyQueue resumed (setTaskState resumed .ready
        (setResult resumed (.error .ecanceled)
          (schedQueueRemove resumed (schedulerTimerRemove resumed state))))) (.value 0) rfl
      by_cases isTask : task = resumed
      · subst task
        rw [if_pos ⟨rfl, blocked, alive⟩]
        refine ⟨fun timed => ?_, ?_⟩
        · simpa using (kept.timed timed).1
        · rw [kept.answer]
          simp
      · rw [if_neg fun both => isTask both.1]
        refine Keeps.trans (.same ?_ ?_) kept
        · simp [isTask]
        · simp [isTask]
    · have notBlocked : ¬(task = resumed ∧ (state.task task).state = .blocked ∧
          schedulerTaskAlive task state) := fun both => blocked (both.1 ▸ both.2.1)
      simp only [blocked, false_or, if_false, if_neg notBlocked]
      split
      · have kept := returned (schedQueuePush .readyQueue resumed (setTaskState resumed .ready
          (schedQueueRemove resumed (schedulerTimerRemove resumed state)))) (.value 0) rfl
        refine Keeps.trans ?_ kept
        by_cases isTask : task = resumed
        · subst task
          exact .untimed (by simp) (by simp)
        · exact .same (by simp) (by simp [isTask])
      · exact returned state _ rfl
  · rw [if_neg alive]
    split
    · rename_i both
      exact (alive (both.1 ▸ both.2.2)).elim
    · exact Keeps.returned _ away

theorem Keeps.resume {resumed : Word} (away : state.currentTask core ≠ some task)
    (other : task ≠ resumed ∨ (state.task task).state ≠ .blocked) :
    Keeps state (schedulerResumeSvc core resumed state) task := by
  have kept := @resumeSvc_keeps _ state core task resumed away
  rwa [if_neg] at kept
  rintro ⟨same, blocked, _⟩
  rcases other with different | notBlocked
  · exact different same
  · exact notBlocked blocked

theorem Keeps.terminateSvc {terminated : Word} (away : state.currentTask core ≠ some task) :
    Keeps state (schedulerTerminateSvc core terminated state) task := by
  simp only [schedulerTerminateSvc]
  split
  · have gone : Keeps (returnResult core (.value 0) state) ((schedulerTimerRemove terminated
        (schedQueueRemove terminated (setTaskStateOff terminated .terminated
          (returnResult core (.value 0) state)))).unlistTask terminated) task := by
      have answer : ∀ state : Plain cores,
          (state.unlistTask terminated).answer task = state.answer task := fun _ => rfl
      by_cases isTask : task = terminated
      · subst task
        exact .untimed (by simp [answer]) (by simp)
      · exact .same (by simp [answer]) (by simp [isTask])
    have left := (Keeps.returned (.value 0) away).trans gone
    split
    · exact left.trans ((Keeps.setCurrent none).trans Keeps.requestSwitch)
    · exact left
  · exact Keeps.returned _ away

theorem Keeps.prioritySvc (placed : Placed state) {changed : Word} (priority : Nat)
    (away : state.currentTask core ≠ some task) :
    Keeps state (schedulerPrioritySvc core changed priority state) task := by
  simp only [schedulerPrioritySvc]
  split
  · have based : Keeps state ((returnResult core (.value 0) state).setTask changed fun entry =>
        { entry with basePriority := priority }) task :=
      (Keeps.returned (.value 0) away).trans
        (.same (answer_setTask _ rfl) (whereabouts_setTask_same _ rfl rfl))
    have stillPlaced : Placed ((returnResult core (.value 0) state).setTask changed fun entry =>
        { entry with basePriority := priority }) :=
      (placed.returnResult _).congr fun _ => whereabouts_setTask_same _ rfl rfl
    exact based.trans ((Keeps.reprioritize stillPlaced _).trans Keeps.requestSwitch)
  · exact Keeps.returned _ away

theorem Keeps.create {created : Word} {descriptor : TaskDescriptor} (other : task ≠ created)
    (away : state.currentTask core ≠ some task) :
    Keeps state (schedulerCreate core created descriptor state) task := by
  have initialised : Keeps state ((schedulerInitTask created descriptor state).listTask created)
      task := by
    refine .same ?_ ?_
    · simp [schedulerInitTask, State.listTask, State.answer, State.setTask, other]
    · simp [whereabouts_initTask, other]
  have running : ((schedulerInitTask created descriptor state).listTask created).currentTask core =
      state.currentTask core := rfl
  rw [schedulerCreate]
  split
  · rw [schedulerCreatePrimordial]
    refine initialised.trans (Keeps.trans (.same (answer_setTask _ rfl) ?_) (Keeps.setCurrent _))
    rw [whereabouts_setTask _ rfl rfl, if_neg other]
  · simp only [schedulerCreateSvc]
    refine initialised.trans (Keeps.trans ?_ (Keeps.returned _ ?_))
    · split
      · exact .same (by simp) (by simp [other])
      · have pushed : Keeps ((schedulerInitTask created descriptor state).listTask created)
            (schedQueuePush .readyQueue created (setTaskState created .ready
              ((schedulerInitTask created descriptor state).listTask created))) task :=
          .same (by simp) (by simp [other])
        split
        · exact pushed
        · split
          · exact pushed.trans Keeps.requestSwitch
          · exact pushed
    · rw [← running] at away
      split
      · exact away
      · split
        · exact away
        · split
          · rw [currentTask_requestSwitch]
            exact away
          · exact away

theorem Keeps.waitSvc [NeZero cores] (placed : Placed state) {futex expected ticks : Word}
    (away : state.currentTask core ≠ some task)
    (done : schedulerWaitSvc core futex expected ticks state = some next) :
    Keeps state next task := by
  simp only [schedulerWaitSvc] at done
  split at done
  · cases done
  · rename_i current runs
    have notCurrent : task ≠ current := fun same => away (same ▸ runs)
    split at done
    · obtain ⟨after, served, rfl⟩ := Option.map_eq_some_iff.mp done
      refine Keeps.trans ?_ ((Keeps.setCurrent none).trans Keeps.requestSwitch)
      split at served
      · have enqueued : Keeps state (schedulerEnqueueWaiter current futex
            (waitValue (state.futex futex) expected) ticks (setResult current (.value 0) state))
            task := by
          refine .same ?_ (by simp [notCurrent])
          have written : ∀ (state : Plain cores) (address value : Word),
              (state.setMemory address value).answer task = state.answer task := fun _ _ _ => rfl
          simp [schedulerEnqueueWaiter, written, notCurrent]
        simp only [schedulerBlock] at served
        split at served
        · split at served
          · obtain rfl := Option.some_inj.mp served
            refine enqueued.trans (.same ?_ ?_)
            · exact answer_boostOwner
            · exact whereabouts_boostOwner (placed.queued_enqueueWaiter runs (.value 0) _)
          · cases served
        · obtain rfl := Option.some_inj.mp served
          exact enqueued
      · obtain rfl := Option.some_inj.mp served
        exact .same (by simp [notCurrent]) (by simp [notCurrent])
    · cases done

theorem Keeps.wakeSvc (placed : Placed state) {futex : Word} {all : Bool}
    (away : state.currentTask core ≠ some task)
    (done : schedulerWakeSvc core futex all state = some next) : Keeps state next task := by
  simp only [schedulerWakeSvc] at done
  split at done
  · obtain ⟨⟨after, woken⟩, served, rfl⟩ := Option.map_eq_some_iff.mp done
    have kept : Keeps state after task := Keeps.wakeFutex placed served
    have stillAway : after.currentTask core ≠ some task := by
      rw [State.currentTask, coreLocal_wakeFutex served]
      exact away
    have returned := kept.trans (Keeps.returned (.value (BitVec.ofNat 32 woken)) stillAway)
    simp only
    split
    · exact returned.trans Keeps.requestSwitch
    · exact returned
  · cases done

theorem Keeps.switchEnter (placed : Placed state) :
    Keeps state (schedulerSwitchEnter core state) task := by
  have cleared : Keeps state (schedSetCurrent core none (state.setCore core fun coreLocal =>
      { coreLocal with pendSv := false })) task :=
    (Keeps.setCore _ rfl rfl).trans (Keeps.setCurrent none)
  simp only [schedulerSwitchEnter]
  split
  · exact cleared.trans (Keeps.setPc _)
  · rename_i running runs
    split
    · exact cleared.trans (Keeps.setCurrent _)
    · refine Keeps.trans ?_ (Keeps.setPc _)
      by_cases isRunning : task = running
      · subst task
        refine .untimed ?_ ?_
        · rw [answer_queuePush, answer_setTaskStateOff]
          exact cleared.answer
        · intro timed
          have before : (state.whereabouts running).timed := by
            refine (cleared.timed ?_).1
            simpa using timed
          rw [(placed.running_free runs).2.2] at before
          exact before
      · refine cleared.trans (.same (by simp) (by simp [isRunning]))

theorem Keeps.switchDrain (placed : Placed state) {index : Nat} {lastTask : Option Word}
    (inside : (state.coreLocal core).pc ≠ .outside)
    (done : schedulerSwitchDrain core index lastTask state = some next) : Keeps state next task := by
  simp only [schedulerSwitchDrain] at done
  have taken := placed.takeSlot inside index lastTask
  have kept : Keeps state (state.setCore core fun coreLocal =>
      { coreLocal with
        deferredWake := Function.update coreLocal.deferredWake index none
        pc := .drain (index + 1) lastTask }) task := .onCores rfl rfl rfl
  split at done
  · split at done
    · obtain rfl := Option.some_inj.mp done
      exact kept
    · obtain ⟨⟨after, woken⟩, served, rfl⟩ := Option.map_eq_some_iff.mp done
      exact (kept.trans (Keeps.wakeFutex taken served)).trans (Keeps.setCore _ rfl rfl)
  · obtain rfl := Option.some_inj.mp done
    exact .setPc _

theorem Keeps.switchTimers [NeZero cores] {lastTask : Option Word}
    (other : expiredTask state ≠ some task) :
    Keeps state (schedulerSwitchTimers core lastTask state) task := by
  rw [schedulerSwitchTimers, timerPop_eq]
  cases found : expiredTask state with
  | none => exact .setPc _
  | some expired =>
      have different : task ≠ expired := fun same => other (same ▸ found)
      exact .same (by simp [different]) (by simp [different])

theorem switchTimers_expired [NeZero cores] {lastTask : Option Word}
    (isExpired : expiredTask state = some task) :
    ¬((schedulerSwitchTimers core lastTask state).whereabouts task).timed ∧
      (schedulerSwitchTimers core lastTask state).answer task = .error .etimedout := by
  rw [schedulerSwitchTimers, timerPop_eq, isExpired]
  exact ⟨by simp, by simp⟩

theorem Keeps.dispatch (placed : Placed state) {dispatched : Word} {lastTask : Option Word}
    (queued : dispatched ∈ state.queue .readyQueue) :
    Keeps state (schedulerDispatch core dispatched lastTask (schedQueueRemove dispatched state))
      task := by
  have answer : (schedulerDispatch core dispatched lastTask
      (schedQueueRemove dispatched state)).answer task = state.answer task := by
    have running : ((schedQueueRemove dispatched state).setTask dispatched fun entry =>
        { entry with state := .running, core := core }).answer task = state.answer task := by
      rw [answer_setTask _ rfl, answer_queueRemove]
    exact running
  have timed : ((schedulerDispatch core dispatched lastTask
      (schedQueueRemove dispatched state)).whereabouts task) =
      { ((schedQueueRemove dispatched state).setTask dispatched fun entry =>
        { entry with state := .running, core := core }).whereabouts task with
        onCore := fun core' => if core' = core then some dispatched = some task
          else (state.whereabouts task).onCore core'
        outside := fun core' => if core' = core then SwitchPc.outside = .outside
          else (state.whereabouts task).outside core' } := by
    rw [schedulerDispatch, whereabouts_kickCores, schedulerOccupy,
      whereabouts_setCore core _ rfl rfl]
    rfl
  have ready : (state.whereabouts dispatched).state = .ready :=
    (placed dispatched).ready.mpr (((placed dispatched).queued _).mp queued)
  by_cases same : task = dispatched
  · subst task
    refine .untimed answer ?_
    rw [timed, whereabouts_setTask _ rfl rfl]
    simpa using (placed dispatched).untimed (by simp [ready]) (by simp [ready])
  · refine .onCores answer ?_ ?_
    · rw [timed, whereabouts_setTask _ rfl rfl]
      simp [same]
    · rw [timed, whereabouts_setTask _ rfl rfl]
      simp [same]

theorem Keeps.switchPick (placed : Placed state) {lastTask : Option Word}
    (stays : ∀ first, (state.queue .readyQueue).find? (fun task => (state.task task).eligible core) =
      some first → ¬schedulerCheckStack (state.task first) → task ≠ first) :
    Keeps state (schedulerSwitchPick core lastTask state) task := by
  simp only [schedulerSwitchPick, schedQueuePop]
  cases found : (state.queue .readyQueue).find? fun task => (state.task task).eligible core with
  | none => exact .switchIdle
  | some first =>
      have sameStack : schedulerCheckStack ((schedQueueRemove first state).task first) =
          schedulerCheckStack (state.task first) := by
        simp [schedQueueRemove, State.setTask, schedulerCheckStack]
      simp only [Option.map_some, sameStack]
      split
      · exact Keeps.dispatch placed (List.mem_of_find?_eq_some found)
      · rename_i damaged
        have different := stays first found damaged
        refine Keeps.trans (.same ?_ (by simp [schedulerEvict, different])) .switchIdle
        have unlisted : ∀ state : Plain cores,
            ((state.unlinkTimer first).unlistTask first).answer task = state.answer task :=
          fun _ => rfl
        simp [schedulerEvict, unlisted, different]

theorem Keeps.tick [NeZero cores] : Keeps state (schedulerTick core state) task := by
  have checked : ∀ state : Plain cores, Keeps state (schedulerTickTimers core state) task := by
    intro state
    rw [schedulerTickTimers]
    split
    · exact .requestSwitch
    · exact .refl _ _
  have counted : ∀ state : Plain cores, Keeps state (schedulerTickSlice core state) task := by
    intro state
    simp only [schedulerTickSlice]
    split
    · split
      · exact .onCores rfl rfl rfl
      · exact .onCores rfl rfl rfl
    · exact .refl _ _
  simp only [schedulerTick]
  split
  · exact (Keeps.setCore _ rfl rfl).trans ((checked _).trans (counted _))
  · exact .refl _ _

def Event.Spares (event : Event) (task : Word) : Prop :=
  event ≠ .depart task ∧ event ≠ .exit task ∧ ∀ priority, event ≠ .create task priority

theorem Event.spares_create {other : Word} (differs : task ≠ other) (priority : Nat) :
    (Event.create other priority).Spares task := by
  simp [Event.Spares, differs.symm]

theorem Event.spares_exit {other : Word} (differs : task ≠ other) :
    (Event.exit other).Spares task := by
  simp [Event.Spares, differs.symm]

theorem Event.spares_depart {other : Word} (differs : task ≠ other) :
    (Event.depart other).Spares task := by
  simp [Event.Spares, differs.symm]

theorem Event.spares_wake (futex : Word) (all : Bool) (task : Word) :
    (Event.wake futex all).Spares task := by
  simp [Event.Spares]

theorem Keeps.switchStep [NeZero cores] (placed : Placed state)
    (spared : (switchEvent core state).Spares task)
    (done : schedulerSwitch core state = some next) : Keeps state next task := by
  rw [schedulerSwitch] at done
  split at done
  · cases done
  · rename_i index lastTask inside
    exact Keeps.switchDrain placed (by simp [inside]) done
  · rename_i lastTask inside
    obtain rfl := Option.some_inj.mp done
    refine Keeps.switchTimers fun isExpired => spared.1 ?_
    simp [switchEvent, inside, isExpired]
  · rename_i lastTask inside
    obtain rfl := Option.some_inj.mp done
    refine Keeps.switchPick placed fun first found damaged isFirst => spared.2.1 ?_
    subst task
    simp only [switchEvent, inside, found]
    rw [if_neg damaged]
  · rename_i lastTask inside
    split at done
    · obtain rfl := Option.some_inj.mp done
      exact .onCores rfl rfl rfl
    · cases done

theorem keeps_of_step [NeZero cores] (placed : Placed state) {action : Action cores}
    (away : ∀ core ∈ action.caller, state.currentTask core ≠ some task)
    (spared : (event state action).Spares task)
    (done : step state action = some next) : Keeps state next task := by
  cases schedulerSteps done with
  | create core created descriptor _ =>
      refine Keeps.create (fun same => ?_) (away core rfl)
      subst created
      exact spared.2.2 _ rfl
  | start core _ _ => exact .onCores rfl rfl rfl
  | yield core _ =>
      rw [schedulerYield]
      split
      · exact .refl _ _
      · exact .requestSwitch
  | sleep core ticks possible done =>
      obtain ⟨current, runs⟩ := State.exists_current possible
      rw [schedulerSleep] at done
      split at done
      · obtain rfl := Option.some_inj.mp done
        rw [schedulerYield]
        split
        · exact .refl _ _
        · exact .requestSwitch
      · refine Keeps.suspendSvc (away core rfl) (Or.inl ?_) done
        rw [runs, taskOrCurrent_current runs, if_pos rfl]
  | suspend core suspended _ done =>
      simp only [schedulerSuspend] at done
      split at done
      · obtain rfl := Option.some_inj.mp done
        exact .returned _ (away core rfl)
      · exact Keeps.suspendSvc (away core rfl) (Or.inr (by decide)) done
  | resume core resumed _ _ =>
      exact Keeps.resume (away core rfl) (Or.inl fun same => spared.1 (same ▸ rfl))
  | terminate core terminated _ =>
      simp only [schedulerTerminate]
      split
      · exact .returned _ (away core rfl)
      · exact Keeps.terminateSvc (away core rfl)
  | setPriority core changed priority _ =>
      simp only [schedulerSetPriority]
      split
      · exact .returned _ (away core rfl)
      · exact Keeps.prioritySvc placed priority (away core rfl)
  | setFlags changed mask _ =>
      exact .same (answer_setTask _ rfl) (whereabouts_setTask_same _ rfl rfl)
  | clearFlags changed mask _ =>
      exact .same (answer_setTask _ rfl) (whereabouts_setTask_same _ rfl rfl)
  | futexInit futex value flags empty => exact .onCores rfl rfl rfl
  | futexWait core futex value ticks _ done => exact Keeps.waitSvc placed (away core rfl) done
  | futexWake core futex all _ done => exact Keeps.wakeSvc placed (away core rfl) done
  | lock => exact .same rfl rfl
  | unlock => exact .same rfl rfl
  | lockRestore lock => exact .same rfl rfl
  | store address value => exact .same rfl rfl
  | smashStack smashed => exact .same (answer_setTask _ rfl) (whereabouts_setTask_same _ rfl rfl)
  | tick core => exact .tick
  | interruptWake core futex all _ =>
      simp only [schedulerFutexWakeDeferred]
      split
      · exact .refl _ _
      · split
        · exact .refl _ _
        · exact .onCores rfl rfl rfl
  | switchEnter core _ _ _ => exact .switchEnter placed
  | switchStep core done => exact Keeps.switchStep placed spared done

theorem expiredTask_timed [NeZero cores] (isExpired : expiredTask state = some task) :
    (state.whereabouts task).timed :=
  List.mem_of_mem_head? (Option.filter_eq_some_iff.mp isExpired).1

theorem switchEvent_depart [NeZero cores] (departs : switchEvent core state = .depart task) :
    ∃ lastTask, (state.coreLocal core).pc = .timers lastTask ∧ expiredTask state = some task := by
  rcases switchEvent_cases core state with quiet | ⟨_, _, _, _, _, _, wakes⟩ |
      ⟨lastTask, expired, inside, isExpired, other⟩ | ⟨_, _, _, exits⟩
  · rw [quiet] at departs
    cases departs
  · rw [wakes] at departs
    cases departs
  · rw [other] at departs
    cases departs
    exact ⟨lastTask, inside, isExpired⟩
  · rw [exits] at departs
    cases departs

/-- A task whose wait ends early loses its timer and finds the reason; one that was not waiting and
has no timer finds what it would have found. -/
theorem departs_of_step [NeZero cores] (placed : Placed state) {action : Action cores}
    (away : ∀ core ∈ action.caller, state.currentTask core ≠ some task)
    (departs : event state action = .depart task) (done : step state action = some next) :
    ((state.task task).state = .blocked →
      ¬(next.whereabouts task).timed ∧ next.answer task = departAnswer state action task) ∧
    ((state.task task).state ≠ .blocked → ¬(state.whereabouts task).timed →
      Keeps state next task) := by
  have performed := view_step placed done
  rw [departs] at performed
  have released : (next.task task).state ≠ .blocked := by
    intro blocked
    obtain ⟨futex, queued⟩ := ((placed.step done) task).blocked.mp blocked
    have waits : next.view.Waits task futex := (((placed.step done) task).queued _).mpr queued
    rw [← Option.some_inj.mp performed, View.waits_remove] at waits
    exact waits.2 rfl
  cases action with
  | suspend core suspended =>
      simp only [step, Option.ite_none_right_eq_some] at done
      obtain ⟨_, done⟩ := done
      simp only [event] at departs
      split at departs
      · cases departs
      · rename_i single
        obtain rfl : taskOrCurrent core suspended state = task := by simpa using departs
        simp only [schedulerSuspend, if_neg (not_and_of_not_left _ single)] at done
        have kept : Keeps state next (taskOrCurrent core suspended state) :=
          Keeps.suspendSvc (away core rfl) (Or.inr (by decide)) done
        refine ⟨fun blocked => ⟨fun timed => ?_, kept.answer⟩, fun _ _ => kept⟩
        exact released ((kept.timed timed).2.trans blocked)
  | resume core resumed =>
      simp only [step, Option.ite_none_right_eq_some, Option.some_inj] at done
      obtain ⟨_, rfl⟩ := done
      obtain rfl : resumed = task := by simpa [event] using departs
      refine ⟨fun blocked => ?_, fun notBlocked _ => Keeps.resume (away core rfl) (Or.inr notBlocked)⟩
      have alive : schedulerTaskAlive resumed state :=
        decide_eq_true ((placed resumed).listed.mpr (by simp [State.whereabouts, blocked]))
      have woken := @resumeSvc_keeps _ state core resumed resumed (away core rfl)
      rwa [if_pos ⟨rfl, blocked, alive⟩] at woken
  | switchStep core =>
      obtain ⟨lastTask, inside, isExpired⟩ := switchEvent_depart departs
      refine ⟨fun _ => ?_, fun _ untimed => (untimed (expiredTask_timed isExpired)).elim⟩
      simp only [step, schedulerSwitch, inside, Option.some_inj] at done
      subst next
      exact switchTimers_expired isExpired
  | terminate core terminated =>
      simp only [event] at departs
      split at departs
      · cases departs
      · cases departs
  | setPriority core changed priority =>
      simp only [event] at departs
      split at departs
      · cases departs
      · cases departs
  | futexWait core futex value ticks =>
      simp only [event] at departs
      split at departs
      · cases departs
      · split at departs
        · cases departs
        · cases departs
  | _ => cases departs

end PicoToolkit
