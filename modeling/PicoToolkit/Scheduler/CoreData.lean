import PicoToolkit.Scheduler.Answer

/-!
The data of a core while services run.  A service may change the current task of a core and pend its
PendSV; the time slice, the ticks, the deferred wakes and the position in the switch stay.
-/

namespace PicoToolkit

open Ring

structure Undisturbed (before after : CoreLocal) : Prop where
  sliceExpires : after.sliceExpires = before.sliceExpires
  ticks : after.ticks = before.ticks
  pc : after.pc = before.pc
  pendSv : before.pendSv = true → after.pendSv = true

theorem Undisturbed.refl (coreLocal : CoreLocal) : Undisturbed coreLocal coreLocal :=
  ⟨rfl, rfl, rfl, id⟩

theorem Undisturbed.trans {before middle after : CoreLocal} (first : Undisturbed before middle)
    (second : Undisturbed middle after) : Undisturbed before after :=
  ⟨second.sliceExpires.trans first.sliceExpires, second.ticks.trans first.ticks,
    second.pc.trans first.pc, fun pending => second.pendSv (first.pendSv pending)⟩

structure Untouched (before after : CoreLocal) : Prop extends Undisturbed before after where
  deferredWake : after.deferredWake = before.deferredWake
  takenWakeCounter : after.takenWakeCounter = before.takenWakeCounter
  givenWakeCounter : after.givenWakeCounter = before.givenWakeCounter

theorem Untouched.refl (coreLocal : CoreLocal) : Untouched coreLocal coreLocal :=
  ⟨.refl coreLocal, rfl, rfl, rfl⟩

theorem Untouched.trans {before middle after : CoreLocal} (first : Untouched before middle)
    (second : Untouched middle after) : Untouched before after :=
  ⟨first.toUndisturbed.trans second.toUndisturbed, second.deferredWake.trans first.deferredWake,
    second.takenWakeCounter.trans first.takenWakeCounter,
    second.givenWakeCounter.trans first.givenWakeCounter⟩

variable {cores : Nat}

structure Serves (state next : Plain cores) : Prop where
  untouched : ∀ core, Untouched (state.coreLocal core) (next.coreLocal core)
  sliceDuration : next.sliceDuration = state.sliceDuration

namespace Serves

variable {state next : Plain cores} {core : Fin cores} {task : Word}

theorem same (coreLocal : next.coreLocal = state.coreLocal)
    (sliceDuration : next.sliceDuration = state.sliceDuration) : Serves state next := by
  refine ⟨fun core => ?_, sliceDuration⟩
  rw [coreLocal]
  exact .refl _

theorem refl (state : Plain cores) : Serves state state := .same rfl rfl

theorem trans {middle : Plain cores} (first : Serves state middle) (second : Serves middle next) :
    Serves state next :=
  ⟨fun core => (first.untouched core).trans (second.untouched core),
    second.sliceDuration.trans first.sliceDuration⟩

theorem setCore {change : CoreLocal → CoreLocal} (untouched : ∀ coreLocal, Untouched coreLocal (change coreLocal)) :
    Serves state (state.setCore core change) := by
  refine ⟨fun other => ?_, rfl⟩
  by_cases isCore : other = core
  · subst other
    simpa [State.setCore] using untouched (state.coreLocal core)
  · simpa [State.setCore, isCore] using Untouched.refl (state.coreLocal other)

theorem requestSwitch : Serves state (schedulerRequestSwitch core state) :=
  setCore fun _ => ⟨⟨rfl, rfl, rfl, fun _ => rfl⟩, rfl, rfl, rfl⟩

theorem setCurrent (current : Option Word) : Serves state (schedSetCurrent core current state) :=
  setCore fun _ => ⟨⟨rfl, rfl, rfl, id⟩, rfl, rfl, rfl⟩

theorem returnResult (result : Result) : Serves state (returnResult core result state) := by
  rw [PicoToolkit.returnResult]
  split
  · exact refl state
  · exact same rfl rfl

theorem reprioritize (newPriority : Nat) :
    Serves state (schedQueueReprioritize task newPriority state) := by
  refine same (coreLocal_reprioritize newPriority) ?_
  rw [schedQueueReprioritize]
  split <;> rfl

theorem timerStart [NeZero cores] (ticks : Word) :
    Serves state (schedulerTimerStart task ticks state) := by
  rw [schedulerTimerStart]
  split
  · exact same rfl rfl
  · exact refl state

theorem createSvc : Serves state (schedulerCreateSvc core task state) := by
  simp only [schedulerCreateSvc]
  refine trans ?_ (returnResult _)
  split
  · exact same rfl rfl
  · have pushed : Serves state
        (schedQueuePush .readyQueue task (setTaskState task .ready (state.listTask task))) :=
      same rfl rfl
    split
    · exact pushed
    · split
      · exact pushed.trans requestSwitch
      · exact pushed

theorem suspendSvc [NeZero cores] {ticks : Word}
    (done : schedulerSuspendSvc core task ticks state = some next) : Serves state next := by
  simp only [schedulerSuspendSvc] at done
  split at done
  · cases done
  · rename_i current runs
    split at done
    · obtain rfl := Option.some_inj.mp done
      refine trans (trans (trans ?_ (timerStart ticks)) (setCurrent none)) requestSwitch
      rw [schedulerSuspendTask]
      split
      · exact same rfl rfl
      · exact same rfl rfl
    · obtain rfl := Option.some_inj.mp done
      exact same rfl rfl

theorem resumeSvc : Serves state (schedulerResumeSvc core task state) := by
  simp only [schedulerResumeSvc]
  split
  · refine trans ?_ requestSwitch
    split
    · refine trans ?_ (returnResult _)
      split
      · exact same rfl rfl
      · exact same rfl rfl
    · exact returnResult _
  · exact returnResult _

theorem boostOwner (futex owner : Word) : Serves state (schedulerBoostOwner futex owner state) := by
  have linked : Serves state (schedulerLinkOwned futex owner state) := by
    rw [schedulerLinkOwned]
    split
    · exact refl state
    · exact same rfl rfl
  simp only [schedulerBoostOwner]
  split
  · exact linked.trans (reprioritize _)
  · exact linked

theorem enqueueWaiter [NeZero cores] (current futex value ticks : Word) :
    Serves state (schedulerEnqueueWaiter current futex value ticks state) := by
  have stored : Serves state (state.setMemory (state.futex futex).value value) := same rfl rfl
  exact (stored.trans (timerStart ticks)).trans (same rfl rfl)

theorem waitSvc [NeZero cores] {futex expected ticks : Word}
    (done : schedulerWaitSvc core futex expected ticks state = some next) : Serves state next := by
  simp only [schedulerWaitSvc] at done
  split at done
  · cases done
  · rename_i current runs
    split at done
    · obtain ⟨after, served, rfl⟩ := Option.map_eq_some_iff.mp done
      refine trans (trans ?_ (setCurrent none)) requestSwitch
      have returned : Serves state (setResult current (.value 0) state) := same rfl rfl
      refine returned.trans ?_
      split at served
      · simp only [schedulerBlock] at served
        split at served
        · split at served
          · obtain rfl := Option.some_inj.mp served
            exact (enqueueWaiter ..).trans (boostOwner ..)
          · cases served
        · obtain rfl := Option.some_inj.mp served
          exact enqueueWaiter ..
      · obtain rfl := Option.some_inj.mp served
        exact same rfl rfl
    · cases done

theorem wakeWaiter (futex : Word) : Serves state (schedulerWakeWaiter futex task state) := by
  have tracked : Serves state (schedulerTrackOwner futex task state) := by
    simp only [schedulerTrackOwner]
    split
    · exact same rfl rfl
    · exact refl state
  have adopted : Serves state (schedulerAdopt futex task (schedulerTrackOwner futex task state)) := by
    rw [schedulerAdopt]
    split
    · have listed : Serves state ((schedulerTrackOwner futex task state).setOwned fun links =>
          schedListAdd links (.head task) (.node futex)) := tracked.trans (same rfl rfl)
      exact listed.trans (reprioritize _)
    · exact tracked
  exact adopted.trans (same rfl rfl)

theorem wakeFutex {futex : Word} {all : Bool} {woken : Nat}
    (done : schedulerWakeFutex futex all state = some (next, woken)) : Serves state next := by
  refine wakeFutex_keeps (motive := Serves state) (fun owner newPriority => ?_)
    (fun state task _ serves => ?_) (fun _ _ _ serves => serves.trans (same rfl rfl)) (refl state) done
  · have unlinked : Serves state (state.setOwned fun links => schedListRemove links (.node futex)) :=
      same rfl rfl
    exact unlinked.trans (reprioritize _)
  · have removed : Serves state (schedQueueRemove task state) := same rfl rfl
    exact serves.trans (removed.trans (wakeWaiter futex))

theorem wakeSvc {futex : Word} {all : Bool}
    (done : schedulerWakeSvc core futex all state = some next) : Serves state next := by
  simp only [schedulerWakeSvc] at done
  split at done
  · obtain ⟨⟨after, woken⟩, served, rfl⟩ := Option.map_eq_some_iff.mp done
    have returned : Serves state (PicoToolkit.returnResult core (.value (BitVec.ofNat 32 woken)) after) :=
      (wakeFutex served).trans (returnResult _)
    simp only
    split
    · exact returned.trans requestSwitch
    · exact returned
  · cases done

theorem terminateSvc : Serves state (schedulerTerminateSvc core task state) := by
  have gone : ∀ state : Plain cores, Serves state ((schedulerTimerRemove task (schedQueueRemove task
      (setTaskStateOff task .terminated state))).unlistTask task) := fun _ => same rfl rfl
  simp only [schedulerTerminateSvc]
  split
  · split
    · exact (((returnResult _).trans (gone _)).trans (setCurrent none)).trans requestSwitch
    · exact (returnResult _).trans (gone _)
  · exact returnResult _

theorem prioritySvc (priority : Nat) : Serves state (schedulerPrioritySvc core task priority state) := by
  have based : ∀ state : Plain cores, Serves state (state.setTask task fun entry =>
      { entry with basePriority := priority }) := fun _ => same rfl rfl
  simp only [schedulerPrioritySvc]
  split
  · exact (((returnResult _).trans (based _)).trans (reprioritize priority)).trans requestSwitch
  · exact returnResult _

theorem create (descriptor : TaskDescriptor) :
    Serves state (schedulerCreate core task descriptor state) := by
  have initialised : Serves state (schedulerInitTask task descriptor state) := same rfl rfl
  simp only [schedulerCreate]
  refine initialised.trans ?_
  split
  · refine trans ?_ (setCurrent (some task))
    exact same rfl rfl
  · exact createSvc

theorem start : Serves state (schedulerStart core state) := by
  have counted : Serves state { state with running := state.running + 1 } := same rfl rfl
  have framed : Serves { state with running := state.running + 1 }
      (State.setCore { state with running := state.running + 1 } core fun coreLocal =>
        { coreLocal with schedulerInitialFrame := some (.value 0) }) :=
    setCore fun _ => ⟨⟨rfl, rfl, rfl, id⟩, rfl, rfl, rfl⟩
  exact (counted.trans framed).trans requestSwitch

theorem yield : Serves state (schedulerYield core state) := by
  rw [schedulerYield]
  split
  · exact refl state
  · exact requestSwitch

end Serves

def Action.isService : Action cores → Bool
  | .tick _ | .interruptWake _ _ _ | .switchEnter _ | .switchStep _ => false
  | _ => true

theorem serves_step [NeZero cores] {state next : Plain cores} {action : Action cores}
    (service : action.isService = true) (done : step state action = some next) :
    Serves state next := by
  cases schedulerSteps done with
  | create core task descriptor _ => exact .create descriptor
  | start core _ _ => exact .start
  | yield core _ => exact .yield
  | sleep core ticks _ done =>
      rw [schedulerSleep] at done
      split at done
      · obtain rfl := Option.some_inj.mp done
        exact .yield
      · exact .suspendSvc done
  | suspend core task _ done =>
      simp only [schedulerSuspend] at done
      split at done
      · obtain rfl := Option.some_inj.mp done
        exact .returnResult _
      · exact .suspendSvc done
  | resume core task _ _ => exact .resumeSvc
  | terminate core task _ =>
      simp only [schedulerTerminate]
      split
      · exact .returnResult _
      · exact .terminateSvc
  | setPriority core task priority _ =>
      simp only [schedulerSetPriority]
      split
      · exact .returnResult _
      · exact .prioritySvc priority
  | futexWait core futex value ticks _ done => exact .waitSvc done
  | futexWake core futex all _ done => exact .wakeSvc done
  | tick _ => cases service
  | interruptWake _ _ _ => cases service
  | switchEnter _ => cases service
  | switchStep _ done => cases service
  | _ => exact .same rfl rfl

end PicoToolkit
