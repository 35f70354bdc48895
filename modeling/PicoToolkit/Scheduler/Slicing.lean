import PicoToolkit.Scheduler.CoreData
import PicoToolkit.Scheduler.Selection

/-!
The time slices: the counter of a core while a task keeps running, and what a switch does to it.
-/

namespace PicoToolkit

open Ring Transition

variable {cores : Nat}

section Change

variable {R : Type → Type → Type} {state : State R cores} {core other : Fin cores}

theorem coreLocal_setCore (change : CoreLocal → CoreLocal) (different : other ≠ core) :
    (state.setCore core change).coreLocal other = state.coreLocal other := by
  simp [State.setCore, different]

theorem coreLocal_setCore_self (change : CoreLocal → CoreLocal) :
    (state.setCore core change).coreLocal core = change (state.coreLocal core) := by
  simp [State.setCore]

variable [Store R]

def reloaded (state : State R cores) (core : Fin cores) (task : Word) (lastTask : Option Word) : Int :=
  if some task ≠ lastTask ∨ (state.coreLocal core).sliceExpires < 0 then state.sliceDuration
  else (state.coreLocal core).sliceExpires

theorem dispatch_own (task : Word) (lastTask : Option Word) :
    let after := (schedulerDispatch core task lastTask state).coreLocal core
    after.sliceExpires = reloaded state core task lastTask ∧ after.pc = .outside := by
  have kept : (schedulerDispatch core task lastTask state).coreLocal core =
      (schedulerOccupy core task lastTask (state.setTask task fun entry =>
        { entry with state := .running, core := core })).coreLocal core := by
    simp [schedulerDispatch, schedulerKickCores]
  rw [kept, schedulerOccupy, coreLocal_setCore_self]
  exact ⟨rfl, rfl⟩

end Change

section Step

variable {state next : Plain cores} {core other : Fin cores}

structure Ticked (before after : CoreLocal) : Prop where
  ticks : after.ticks = before.ticks + 1
  sliceExpires : after.sliceExpires =
    if before.sliceExpires = int32Max then int32Max else before.sliceExpires - 1
  pc : after.pc = before.pc
  pendSv : before.pendSv = true → after.pendSv = true
  expires : before.sliceExpires ≠ int32Max → after.sliceExpires = 0 → after.pendSv = true

theorem Serves.tickTimers [NeZero cores] : Serves state (schedulerTickTimers core state) := by
  rw [schedulerTickTimers]
  split
  · exact .requestSwitch
  · exact .refl state

theorem tick_own [NeZero cores] :
    schedulerTick core state = state ∨
      Ticked (state.coreLocal core) ((schedulerTick core state).coreLocal core) := by
  simp only [schedulerTick]
  split
  swap
  · exact .inl rfl
  refine .inr ?_
  let counted := state.setCore core fun coreLocal => { coreLocal with ticks := coreLocal.ticks + 1 }
  let checked := schedulerTickTimers core counted
  have first : counted.coreLocal core =
      { state.coreLocal core with ticks := (state.coreLocal core).ticks + 1 } :=
    coreLocal_setCore_self _
  have second : Untouched (counted.coreLocal core) (checked.coreLocal core) :=
    Serves.tickTimers.untouched core
  rw [first] at second
  have slice : (checked.coreLocal core).sliceExpires = (state.coreLocal core).sliceExpires :=
    second.sliceExpires
  change Ticked (state.coreLocal core) ((schedulerTickSlice core checked).coreLocal core)
  simp only [schedulerTickSlice]
  by_cases enabled : (checked.coreLocal core).sliceExpires ≠ int32Max
  · rw [if_pos enabled]
    have down : (checked.setCore core fun coreLocal =>
        { coreLocal with sliceExpires := coreLocal.sliceExpires - 1 }).coreLocal core =
        { checked.coreLocal core with sliceExpires := (checked.coreLocal core).sliceExpires - 1 } :=
      coreLocal_setCore_self _
    have value : (checked.coreLocal core).sliceExpires - 1 =
        if (state.coreLocal core).sliceExpires = int32Max then int32Max
        else (state.coreLocal core).sliceExpires - 1 := by
      rw [slice] at enabled ⊢
      rw [if_neg enabled]
    split
    · rw [schedulerRequestSwitch, coreLocal_setCore_self, down]
      exact ⟨second.ticks, value, second.pc, fun _ => rfl, fun _ _ => rfl⟩
    · rename_i nonzero
      rw [down] at nonzero ⊢
      exact ⟨second.ticks, value, second.pc, second.pendSv, fun _ zero => (nonzero zero).elim⟩
  · rw [if_neg enabled]
    have disabled : (state.coreLocal core).sliceExpires = int32Max := by
      rw [← slice]
      exact not_not.mp enabled
    refine ⟨second.ticks, ?_, second.pc, second.pendSv, fun apart _ => (apart disabled).elim⟩
    rw [if_pos disabled, slice, disabled]

theorem sliceDuration_tick [NeZero cores] :
    (schedulerTick core state).sliceDuration = state.sliceDuration := by
  have sliced : ∀ state : Plain cores,
      (schedulerTickSlice core state).sliceDuration = state.sliceDuration := by
    intro state
    simp only [schedulerTickSlice]
    split
    · split <;> rfl
    · rfl
  simp only [schedulerTick]
  split
  · rw [sliced, Serves.tickTimers.sliceDuration]
    rfl
  · rfl

theorem tick_other [NeZero cores] (different : other ≠ core) :
    (schedulerTick core state).coreLocal other = state.coreLocal other := by
  have requested : ∀ state : Plain cores,
      (schedulerRequestSwitch core state).coreLocal other = state.coreLocal other :=
    fun _ => coreLocal_setCore _ different
  have checked : ∀ state : Plain cores,
      (schedulerTickTimers core state).coreLocal other = state.coreLocal other := by
    intro state
    rw [schedulerTickTimers]
    split
    · exact requested state
    · rfl
  have sliced : ∀ state : Plain cores,
      (schedulerTickSlice core state).coreLocal other = state.coreLocal other := by
    intro state
    simp only [schedulerTickSlice]
    split
    · split
      · rw [requested, coreLocal_setCore _ different]
      · rw [coreLocal_setCore _ different]
    · rfl
  simp only [schedulerTick]
  split
  · rw [sliced, checked, coreLocal_setCore _ different]
  · rfl

theorem undisturbed_interruptWake (futex : Word) (all : Bool) :
    Undisturbed (state.coreLocal other)
      ((schedulerFutexWakeDeferred core futex all state).coreLocal other) := by
  simp only [schedulerFutexWakeDeferred]
  split
  · exact .refl _
  · split
    · exact .refl _
    · by_cases isCore : other = core
      · subst other
        rw [schedulerRequestSwitch, coreLocal_setCore_self, coreLocal_setCore_self]
        exact ⟨rfl, rfl, rfl, fun _ => rfl⟩
      · rw [schedulerRequestSwitch, coreLocal_setCore _ isCore, coreLocal_setCore _ isCore]
        exact .refl _

theorem sliceExpires_setCore {change : CoreLocal → CoreLocal}
    (same : ∀ coreLocal, (change coreLocal).sliceExpires = coreLocal.sliceExpires) :
    ((state.setCore core change).coreLocal other).sliceExpires =
      (state.coreLocal other).sliceExpires := by
  by_cases isCore : other = core
  · subst other
    rw [coreLocal_setCore_self, same]
  · rw [coreLocal_setCore _ isCore]

structure SwitchesOn (core : Fin cores) (state next : Plain cores) : Prop where
  sliceDuration : next.sliceDuration = state.sliceDuration
  sliceExpires : (next.coreLocal core).sliceExpires = (state.coreLocal core).sliceExpires
  others : ∀ other, other ≠ core → Undisturbed (state.coreLocal other) (next.coreLocal other)

theorem SwitchesOn.setCore {change : CoreLocal → CoreLocal}
    (same : ∀ coreLocal, (change coreLocal).sliceExpires = coreLocal.sliceExpires) :
    SwitchesOn core state (state.setCore core change) := by
  refine ⟨rfl, sliceExpires_setCore same, fun other different => ?_⟩
  rw [coreLocal_setCore _ different]
  exact .refl _

theorem SwitchesOn.trans {middle : Plain cores} (first : SwitchesOn core state middle)
    (second : SwitchesOn core middle next) : SwitchesOn core state next :=
  ⟨second.sliceDuration.trans first.sliceDuration, second.sliceExpires.trans first.sliceExpires,
    fun other different => (first.others other different).trans (second.others other different)⟩

theorem Serves.switchesOn (serves : Serves state next) : SwitchesOn core state next :=
  ⟨serves.sliceDuration, (serves.untouched core).sliceExpires,
    fun other _ => (serves.untouched other).toUndisturbed⟩

theorem SwitchesOn.switchEnter : SwitchesOn core state (schedulerSwitchEnter core state) := by
  have cleared : SwitchesOn core state (schedSetCurrent core none
      (state.setCore core fun coreLocal => { coreLocal with pendSv := false })) := by
    refine (SwitchesOn.setCore ?_).trans (.setCore ?_)
    · exact fun _ => rfl
    · exact fun _ => rfl
  simp only [schedulerSwitchEnter]
  split
  · exact cleared.trans (.setCore fun _ => rfl)
  · rename_i task runs
    split
    · exact cleared.trans (.setCore fun _ => rfl)
    · refine cleared.trans (.trans (Serves.switchesOn ?_) (.setCore fun _ => rfl))
      exact .same rfl rfl

theorem SwitchesOn.switchDrain {index : Nat} {lastTask : Option Word}
    (done : schedulerSwitchDrain core index lastTask state = some next) :
    SwitchesOn core state next := by
  simp only [schedulerSwitchDrain] at done
  split at done
  · split at done
    · obtain rfl := Option.some_inj.mp done
      exact .setCore fun _ => rfl
    · obtain ⟨⟨after, woken⟩, served, rfl⟩ := Option.map_eq_some_iff.mp done
      refine (SwitchesOn.setCore ?_).trans ((Serves.wakeFutex served).switchesOn.trans (.setCore ?_))
      · exact fun _ => rfl
      · exact fun _ => rfl
  · obtain rfl := Option.some_inj.mp done
    exact .setCore fun _ => rfl

theorem SwitchesOn.switchTimers [NeZero cores] (lastTask : Option Word) :
    SwitchesOn core state (schedulerSwitchTimers core lastTask state) := by
  rw [schedulerSwitchTimers]
  split
  · exact .setCore fun _ => rfl
  · rename_i expired popped found
    rw [timerPop_eq] at found
    obtain ⟨first, _, same⟩ := Option.map_eq_some_iff.mp found
    obtain ⟨rfl, rfl⟩ := Prod.mk.inj same
    exact Serves.switchesOn (.same rfl rfl)

theorem SwitchesOn.switchIdle (lastTask : Option Word) :
    SwitchesOn core state (schedulerSwitchIdle core lastTask state) := by
  simp only [schedulerSwitchIdle]
  split
  · have counted : Serves state { state with running := state.running - 1 } := .same rfl rfl
    rw [schedulerStop]
    refine counted.switchesOn.trans (.setCore ?_)
    exact fun _ => rfl
  · exact .setCore fun _ => rfl

theorem dispatch_other (task : Word) (lastTask : Option Word) (different : other ≠ core) :
    Undisturbed (state.coreLocal other)
      ((schedulerDispatch core task lastTask state).coreLocal other) := by
  let occupied := schedulerOccupy core task lastTask (state.setTask task fun entry =>
    { entry with state := .running, core := core })
  have left : occupied.coreLocal other = state.coreLocal other := coreLocal_setCore _ different
  have kicked : (schedulerDispatch core task lastTask state).coreLocal other =
      if other ≠ core ∧ schedulerKicks occupied other then
        { occupied.coreLocal other with pendSv := true }
      else occupied.coreLocal other := rfl
  rw [kicked, left]
  split
  · exact ⟨rfl, rfl, rfl, fun _ => rfl⟩
  · exact .refl _

theorem switchStep_cases [NeZero cores] (done : schedulerSwitch core state = some next) :
    SwitchesOn core state next ∨
      ∃ lastTask task, (state.coreLocal core).pc = .pick lastTask ∧
        next = schedulerDispatch core task lastTask (schedQueueRemove task state) := by
  rw [schedulerSwitch] at done
  split at done
  · cases done
  · exact .inl (.switchDrain done)
  · obtain rfl := Option.some_inj.mp done
    exact .inl (.switchTimers _)
  · rename_i lastTask picks
    obtain rfl := Option.some_inj.mp done
    have chosen := switchPick_chosen core lastTask state
    generalize schedulerSwitchPick core lastTask state = next at chosen
    cases chosen with
    | nothing _ => exact .inl (.switchIdle lastTask)
    | @dispatched task _ _ => exact .inr ⟨lastTask, task, picks, rfl⟩
    | @evicted task _ _ =>
        have evicts : Serves state (schedulerEvict task (schedQueueRemove task state)) :=
          .same rfl rfl
        exact .inl (evicts.switchesOn.trans (.switchIdle lastTask))
  · split at done
    · obtain rfl := Option.some_inj.mp done
      refine .inl (.setCore ?_)
      exact fun _ => rfl
    · cases done

theorem step_outside [NeZero cores] {action : Action cores} (done : step state action = some next)
    (outside : (state.coreLocal core).pc = .outside) (stays : action ≠ .switchEnter core) :
    Undisturbed (state.coreLocal core) (next.coreLocal core) ∨
      Ticked (state.coreLocal core) (next.coreLocal core) := by
  by_cases service : action.isService = true
  · exact .inl ((serves_step service done).untouched core).toUndisturbed
  cases action with
  | tick other =>
      obtain rfl := Option.some_inj.mp done
      by_cases own : core = other
      · subst own
        rcases @tick_own _ state core _ with same | ticked
        · rw [same]
          exact .inl (.refl _)
        · exact .inr ticked
      · rw [tick_other own]
        exact .inl (.refl _)
  | interruptWake other futex all =>
      simp only [step, Option.ite_none_right_eq_some, Option.some_inj] at done
      obtain ⟨_, rfl⟩ := done
      exact .inl (undisturbed_interruptWake futex all)
  | switchEnter other =>
      simp only [step, Option.ite_none_right_eq_some, Option.some_inj] at done
      obtain ⟨_, rfl⟩ := done
      have different : core ≠ other := fun same => stays (by rw [same])
      exact .inl (SwitchesOn.switchEnter.others core different)
  | switchStep other =>
      have different : core ≠ other := by
        rintro rfl
        simp [step, schedulerSwitch, outside] at done
      rcases switchStep_cases done with switches | ⟨lastTask, task, _, rfl⟩
      · exact .inl (switches.others core different)
      · have others : Undisturbed ((schedQueueRemove task state).coreLocal core)
            ((schedulerDispatch other task lastTask (schedQueueRemove task state)).coreLocal core) :=
          dispatch_other task lastTask different
        exact .inl others
  | _ => exact (service rfl).elim

def Counts (state next : Plain cores) (core : Fin cores) : Prop :=
  (next.coreLocal core).sliceExpires = (state.coreLocal core).sliceExpires ∨
    (state.coreLocal core).sliceExpires ≠ int32Max ∧
      (next.coreLocal core).sliceExpires = (state.coreLocal core).sliceExpires - 1 ∨
    (next.coreLocal core).sliceExpires = state.sliceDuration

theorem counts_step [NeZero cores] {action : Action cores} (done : step state action = some next) :
    next.sliceDuration = state.sliceDuration ∧ ∀ core, Counts state next core := by
  by_cases service : action.isService = true
  · have serves := serves_step service done
    exact ⟨serves.sliceDuration, fun core => .inl (serves.untouched core).sliceExpires⟩
  have switched {other : Fin cores} (switches : SwitchesOn other state next) :
      next.sliceDuration = state.sliceDuration ∧ ∀ core, Counts state next core := by
    refine ⟨switches.sliceDuration, fun core => .inl ?_⟩
    by_cases own : core = other
    · rw [own]
      exact switches.sliceExpires
    · exact (switches.others core own).sliceExpires
  cases action with
  | tick other =>
      obtain rfl := Option.some_inj.mp done
      refine ⟨sliceDuration_tick, fun core => ?_⟩
      by_cases own : core = other
      · subst own
        rcases @tick_own _ state core _ with same | ticked
        · rw [same]
          exact .inl rfl
        · have counted := ticked.sliceExpires
          split at counted
          · rename_i disabled
            exact .inl (counted.trans disabled.symm)
          · rename_i enabled
            exact .inr (.inl ⟨enabled, counted⟩)
      · rw [Counts, tick_other own]
        exact .inl rfl
  | interruptWake other futex all =>
      simp only [step, Option.ite_none_right_eq_some, Option.some_inj] at done
      obtain ⟨_, rfl⟩ := done
      refine ⟨?_, fun core => .inl (undisturbed_interruptWake futex all).sliceExpires⟩
      simp only [schedulerFutexWakeDeferred]
      split
      · rfl
      · split <;> rfl
  | switchEnter other =>
      simp only [step, Option.ite_none_right_eq_some, Option.some_inj] at done
      obtain ⟨_, rfl⟩ := done
      exact switched .switchEnter
  | switchStep other =>
      rcases switchStep_cases done with switches | ⟨lastTask, task, _, rfl⟩
      · exact switched switches
      · refine ⟨rfl, fun core => ?_⟩
        by_cases own : core = other
        · subst own
          have selected : ((schedulerDispatch core task lastTask
              (schedQueueRemove task state)).coreLocal core).sliceExpires =
              reloaded (schedQueueRemove task state) core task lastTask := (dispatch_own ..).1
          rw [Counts, selected, reloaded]
          split
          · exact .inr (.inr rfl)
          · exact .inl rfl
        · have others : Undisturbed ((schedQueueRemove task state).coreLocal core)
              ((schedulerDispatch other task lastTask (schedQueueRemove task state)).coreLocal core) :=
            dispatch_other task lastTask own
          exact .inl others.sliceExpires
  | _ => exact (service rfl).elim

end Step

section Runs

variable [NeZero cores] {state next : State Links cores} {core : Fin cores}

theorem step_plain {action : Action cores} (reached : (scheduler cores).Reachable state)
    (moved : step state action = some next) : step state.plain action = some next.plain := by
  obtain ⟨follows, abstractly⟩ := (scheduler_simulation cores).reachable reached
  exact ((scheduler_simulation cores).step state action next follows abstractly moved).2

theorem sliceExpires_le (reached : (scheduler cores).Reachable state) (core : Fin cores) :
    (state.coreLocal core).sliceExpires ≤ state.sliceDuration ∨
      (state.coreLocal core).sliceExpires = int32Max := by
  have holds : (scheduler cores).Reachable state ∧
      ((state.coreLocal core).sliceExpires ≤ state.sliceDuration ∨
        (state.coreLocal core).sliceExpires = int32Max) := by
    refine reached.invariant (motive := fun state => (scheduler cores).Reachable state ∧
      ((state.coreLocal core).sliceExpires ≤ state.sliceDuration ∨
        (state.coreLocal core).sliceExpires = int32Max)) ?_ ?_
    · rintro state ⟨memory, sliceDuration, rfl⟩
      exact ⟨.start ⟨memory, sliceDuration, rfl⟩, .inr rfl⟩
    · rintro state action next ⟨reached, bounded⟩ moved
      refine ⟨reached.step moved, ?_⟩
      obtain ⟨duration, counts⟩ := counts_step (step_plain reached moved)
      have duration : next.sliceDuration = state.sliceDuration := duration
      rw [duration]
      rcases counts core with (same : (next.coreLocal core).sliceExpires =
          (state.coreLocal core).sliceExpires) | ⟨(enabled : (state.coreLocal core).sliceExpires ≠ int32Max),
          (down : (next.coreLocal core).sliceExpires = (state.coreLocal core).sliceExpires - 1)⟩ |
          (fresh : (next.coreLocal core).sliceExpires = state.sliceDuration)
      · rw [same]
        exact bounded
      · have le := bounded.resolve_right enabled
        left
        omega
      · exact .inl (Int.le_of_eq fresh)
  exact holds.2

def Armed (state : State Links cores) (core : Fin cores) : Prop :=
  1 ≤ (state.coreLocal core).sliceExpires ∧ (state.coreLocal core).sliceExpires ≤ state.sliceDuration

/-- While the core does not enter the switch, a switch is pending or the ticks use up the slice. -/
theorem armed_runs {start later : State Links cores} (reached : (scheduler cores).Reachable start)
    (finite : start.sliceDuration < int32Max) (outside : (start.coreLocal core).pc = .outside)
    (armed : Armed start core)
    (leads : (scheduler cores).Leads (fun _ action => action ≠ .switchEnter core) start later) :
    (later.coreLocal core).pendSv = true ∨
      1 ≤ (later.coreLocal core).sliceExpires ∧
        (later.coreLocal core).sliceExpires +
          (((later.coreLocal core).ticks - (start.coreLocal core).ticks).toNat : Int) =
            (start.coreLocal core).sliceExpires := by
  have holds : (scheduler cores).Reachable later ∧ (later.coreLocal core).pc = .outside ∧
      ((later.coreLocal core).pendSv = true ∨
        1 ≤ (later.coreLocal core).sliceExpires ∧
          (later.coreLocal core).sliceExpires +
            (((later.coreLocal core).ticks - (start.coreLocal core).ticks).toNat : Int) =
              (start.coreLocal core).sliceExpires) := by
    induction leads with
    | refl => exact ⟨reached, outside, .inr ⟨armed.1, by simp⟩⟩
    | @step state action next _ stays moved ih =>
        obtain ⟨reachedState, outsideState, counted⟩ := ih
        refine ⟨reachedState.step moved, ?_⟩
        rcases step_outside (step_plain reachedState moved) outsideState stays with same | ticked
        · have here : Undisturbed (state.coreLocal core) (next.coreLocal core) := same
          refine ⟨here.pc.trans outsideState, ?_⟩
          rw [here.sliceExpires, here.ticks]
          exact counted.imp_left here.pendSv
        · have here : Ticked (state.coreLocal core) (next.coreLocal core) := ticked
          refine ⟨here.pc.trans outsideState, ?_⟩
          rcases counted with pending | ⟨positive, total⟩
          · exact .inl (here.pendSv pending)
          have bounded := armed.2
          have small : start.sliceDuration < 2 ^ 31 := Int.lt_trans finite (by decide)
          have enabled : (state.coreLocal core).sliceExpires ≠ int32Max := by omega
          have down := here.sliceExpires
          rw [if_neg enabled] at down
          by_cases zero : (next.coreLocal core).sliceExpires = 0
          · exact .inl (here.expires enabled zero)
          have elapsed : ((next.coreLocal core).ticks - (start.coreLocal core).ticks).toNat =
              ((state.coreLocal core).ticks - (start.coreLocal core).ticks).toNat + 1 := by
            rw [here.ticks]
            bv_omega
          rw [elapsed]
          refine .inr ⟨?_, ?_⟩ <;> omega
  exact holds.2.2

/-- A switch that selects a task leaves its slice armed, unless it is the one that ran before and the
counter is used up or disabled.  From an armed slice on, the core is asked to switch within the ticks of a
slice. -/
theorem switch_arms {lastTask : Option Word} {task : Word} (reached : (scheduler cores).Reachable state)
    (positive : 1 ≤ state.sliceDuration) (finite : state.sliceDuration < int32Max)
    (picks : (state.coreLocal core).pc = .pick lastTask)
    (moved : step state (.switchStep core) = some next) (returns : next.currentTask core = some task) :
    (Armed next core ↔ ¬(lastTask = some task ∧ ((state.coreLocal core).sliceExpires = 0 ∨
        (state.coreLocal core).sliceExpires = int32Max))) ∧
      (Armed next core → ∀ later,
        (scheduler cores).Leads (fun _ action => action ≠ .switchEnter core) next later →
          next.sliceDuration ≤
            (((later.coreLocal core).ticks - (next.coreLocal core).ticks).toNat : Int) →
              (later.coreLocal core).pendSv = true) := by
  have moves : (scheduler cores).step state (.switchStep core) = some next := moved
  obtain ⟨_, _, dispatches⟩ := step_pick_runs reached picks moved returns
  have duration : next.sliceDuration = state.sliceDuration := by
    rw [dispatches]
    rfl
  have selected : (next.coreLocal core).sliceExpires =
      reloaded (schedQueueRemove task state) core task lastTask ∧
        (next.coreLocal core).pc = .outside := by
    rw [dispatches]
    exact dispatch_own task lastTask
  constructor
  · have bounded := sliceExpires_le reached core
    have counter : (next.coreLocal core).sliceExpires =
        if some task ≠ lastTask ∨ (state.coreLocal core).sliceExpires < 0 then state.sliceDuration
        else (state.coreLocal core).sliceExpires := selected.1
    rw [Armed, counter, duration]
    by_cases loads : some task ≠ lastTask ∨ (state.coreLocal core).sliceExpires < 0
    · rw [if_pos loads]
      refine iff_of_true ⟨positive, Int.le_refl _⟩ ?_
      rintro ⟨same, bad⟩
      have negative := loads.resolve_left (not_not.mpr same.symm)
      have large : (0 : Int) < int32Max := by decide
      omega
    · rw [if_neg loads]
      have same : lastTask = some task := by
        by_contra different
        exact loads (.inl fun same => different same.symm)
      have nonnegative : ¬(state.coreLocal core).sliceExpires < 0 := fun less => loads (.inr less)
      constructor
      · rintro ⟨least, most⟩ ⟨_, bad⟩
        omega
      · intro good
        have nonzero : (state.coreLocal core).sliceExpires ≠ 0 := fun zero => good ⟨same, .inl zero⟩
        have enabled : (state.coreLocal core).sliceExpires ≠ int32Max :=
          fun disabled => good ⟨same, .inr disabled⟩
        exact ⟨by omega, bounded.resolve_right enabled⟩
  · intro armed later leads elapsed
    rcases armed_runs (reached.step moves) (by rw [duration]; exact finite) selected.2 armed leads with
      pending | ⟨least, total⟩
    · exact pending
    · have most := armed.2
      omega

def slicedState : State Links 1 := { bootState 1 with sliceDuration := 2 }

theorem initial_slicedState : (scheduler 1).initial slicedState := ⟨_, _, rfl⟩

theorem leads_ticks (state : State Links 1) :
    (scheduler 1).Leads (fun _ action => action ≠ .switchEnter 0) state
      (schedulerTick 0 (schedulerTick 0 state)) := by
  have ticks (state : State Links 1) :
      (scheduler 1).step state (.tick 0) = some (schedulerTick 0 state) := rfl
  have other : (.tick 0 : Action 1) ≠ .switchEnter 0 := by simp
  exact .step (.step .refl other (ticks state)) other (ticks _)

theorem switch_arms_first :
    ∃ state next : State Links 1, (scheduler 1).Reachable state ∧
      step state (.switchStep 0) = some next ∧ Armed next 0 ∧
      ((schedulerTick 0 (schedulerTick 0 next)).coreLocal 0).pendSv = true := by
  obtain ⟨state, reached, finite, picks, moves⟩ := System.exists_of_run (fun _ _ => True)
    initial_slicedState
    [.create 0 0x1000 { flags := schedulerPrimordialTask, priority := 32 },
      .create 0 0x2000 { priority := 31 }, .start 0, .switchEnter 0, .switchStep 0, .switchStep 0]
    (fun state => state.sliceDuration = 2 ∧ (state.coreLocal 0).pc = .pick (some 0x1000) ∧
      (step state (.switchStep 0)).any fun next => decide (next.currentTask 0 = some 0x2000 ∧
        next.sliceDuration ≤ ((((schedulerTick 0 (schedulerTick 0 next)).coreLocal 0).ticks -
          (next.coreLocal 0).ticks).toNat : Int)))
    (by decide)
  obtain ⟨next, moved, holds⟩ := (Option.any_eq_true _ _).mp moves
  obtain ⟨returns, elapsed⟩ := of_decide_eq_true holds
  have arms := switch_arms reached (by rw [finite]; decide) (by rw [finite]; decide) picks moved returns
  have armed : Armed next 0 := arms.1.mpr (by simp)
  refine ⟨state, next, reached, moved, armed, arms.2 armed _ ?_ elapsed⟩
  exact leads_ticks next

theorem reselected_unarmed :
    ∃ state next later : State Links 1, (scheduler 1).Reachable state ∧ state.sliceDuration = 2 ∧
      step state (.switchStep 0) = some next ∧ next.currentTask 0 = some 0x2000 ∧ ¬Armed next 0 ∧
      (scheduler 1).Leads (fun _ action => action ≠ .switchEnter 0) next later ∧
      next.sliceDuration ≤ (((later.coreLocal 0).ticks - (next.coreLocal 0).ticks).toNat : Int) ∧
      (later.coreLocal 0).pendSv = false := by
  obtain ⟨state, reached, finite, moves⟩ := System.exists_of_run (fun _ _ => True)
    initial_slicedState
    (oneRunner ++ [.tick 0, .tick 0, .switchEnter 0, .switchStep 0, .switchStep 0])
    (fun state => state.sliceDuration = 2 ∧
      (step state (.switchStep 0)).any fun next => decide (next.currentTask 0 = some 0x2000 ∧
        (next.coreLocal 0).sliceExpires = 0 ∧
        next.sliceDuration ≤ ((((schedulerTick 0 (schedulerTick 0 next)).coreLocal 0).ticks -
          (next.coreLocal 0).ticks).toNat : Int) ∧
        ((schedulerTick 0 (schedulerTick 0 next)).coreLocal 0).pendSv = false))
    (by decide)
  obtain ⟨next, moved, holds⟩ := (Option.any_eq_true _ _).mp moves
  obtain ⟨returns, zero, elapsed, quiet⟩ := of_decide_eq_true holds
  have unarmed : ¬Armed next 0 := by
    rw [Armed, zero]
    omega
  refine ⟨state, next, _, reached, finite, moved, returns, unarmed, ?_, elapsed, quiet⟩
  exact leads_ticks next

end Runs

end PicoToolkit
