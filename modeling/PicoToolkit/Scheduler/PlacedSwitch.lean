import PicoToolkit.Scheduler.PlacedServices

/-!
The switch of a core keeps every task where its fields say, and so does every step of the scheduler.
-/

namespace PicoToolkit

open Ring Transition Whereabouts

variable {cores : Nat} {state : Plain cores} {core : Fin cores}

theorem State.vacant (placed : Placed state) (inside : (state.coreLocal core).pc ≠ .outside)
    (task : Word) : ¬(state.whereabouts task).onCore core := fun onCore =>
  inside ((placed task).outside core onCore)

theorem Placed.moveCore (placed : Placed state) (idle : ∀ task, ¬(state.whereabouts task).onCore core)
    (pc : SwitchPc) {next : Plain cores}
    (moves : ∀ task, next.whereabouts task =
      { state.whereabouts task with
        outside := fun other =>
          if other = core then pc = .outside else (state.whereabouts task).outside other }) :
    Placed next := by
  intro task
  have consistent := placed task
  rw [moves]
  refine ⟨consistent.queued, consistent.ready, consistent.blocked, consistent.running,
    consistent.oneCore, consistent.listed, consistent.timed, ?_⟩
  intro other onCore
  by_cases same : other = core
  · subst other
    exact (idle task onCore).elim
  · simpa [same] using consistent.outside other onCore

theorem Placed.setPc (placed : Placed state) (idle : ∀ task, ¬(state.whereabouts task).onCore core)
    (pc : SwitchPc) : Placed (setPc core pc state) :=
  placed.moveCore idle pc fun _ => whereabouts_setPc core pc

theorem whereabouts_setCurrent_back {current task : Word}
    (runs : state.currentTask core = some current) :
    (schedSetCurrent core (some current) (schedSetCurrent core none state)).whereabouts task =
      state.whereabouts task := by
  have onCore : (fun other => if other = core then some current = some task
      else if other = core then none = some task else (state.whereabouts task).onCore other) =
      (state.whereabouts task).onCore := by
    funext other
    by_cases same : other = core
    · subst other
      rw [if_pos rfl, ← runs]
      rfl
    · rw [if_neg same, if_neg same]
  rw [whereabouts_setCurrent, whereabouts_setCurrent, onCore]

theorem Placed.switchEnter (placed : Placed state) :
    Placed (schedulerSwitchEnter core state) := by
  simp only [schedulerSwitchEnter]
  have cleared : ∀ task, (state.setCore core fun coreLocal =>
      { coreLocal with pendSv := false }).whereabouts task = state.whereabouts task :=
    fun _ => whereabouts_setCore_same core _ rfl rfl
  split
  · rename_i idle
    have vacant : ∀ task, ¬(state.whereabouts task).onCore core := by
      intro task onCore
      exact Option.some_ne_none task (onCore.symm.trans idle)
    refine Placed.setPc ?_ ?_ _
    · refine placed.congr fun task => ?_
      rw [whereabouts_vacate (by simpa [cleared] using vacant task), cleared]
    · simp
  · rename_i task runs
    split
    · refine placed.congr fun other => ?_
      rw [whereabouts_setCurrent_back, cleared]
      have current : (state.coreLocal core).currentTask = some task := runs
      simp [State.currentTask, State.setCore, current]
    · refine Placed.setPc ?_ ?_ _
      · obtain ⟨unqueued, inNoQueue, untimed⟩ := placed.running_free runs
        intro other
        by_cases isCurrent : other = task
        · subst other
          refine placed.leave runs .ready (some .readyQueue) False ?_ (by simp)
          simp [cleared, inNoQueue, untimed]
        · have offCore := State.offCore runs isCurrent
          simp only [whereabouts_queuePush, whereabouts_setTaskStateOff, if_neg isCurrent]
          rw [whereabouts_vacate (by simpa [cleared] using offCore), cleared]
          exact placed other
      · intro other
        by_cases isCurrent : other = task
        · subst other
          simp
        · simp [isCurrent]

theorem Placed.takeSlot (placed : Placed state) (inside : (state.coreLocal core).pc ≠ .outside)
    (index : Nat) (lastTask : Option Word) :
    Placed (state.setCore core fun coreLocal =>
      { coreLocal with
        deferredWake := Function.update coreLocal.deferredWake index none
        pc := .drain (index + 1) lastTask }) := by
  refine placed.moveCore (State.vacant placed inside) (.drain (index + 1) lastTask) fun task => ?_
  rw [whereabouts_setCore core _ rfl rfl, replace_same (state.whereabouts task).onCore]
  rfl

theorem Placed.switchDrain (placed : Placed state) {index : Nat} {lastTask : Option Word}
    {next : Plain cores} (inside : (state.coreLocal core).pc ≠ .outside)
    (done : schedulerSwitchDrain core index lastTask state = some next) : Placed next := by
  simp only [schedulerSwitchDrain] at done
  have taken := placed.takeSlot inside index lastTask
  split at done
  · split at done
    · obtain rfl := Option.some_inj.mp done
      exact taken
    · obtain ⟨⟨after, woken⟩, served, rfl⟩ := Option.map_eq_some_iff.mp done
      exact (taken.wakeFutex served).congr fun _ => whereabouts_setCore_same core _ rfl rfl
  · obtain rfl := Option.some_inj.mp done
    exact placed.setPc (State.vacant placed inside) _

theorem Placed.switchTimers [NeZero cores] (placed : Placed state) {lastTask : Option Word}
    (inside : (state.coreLocal core).pc ≠ .outside) :
    Placed (schedulerSwitchTimers core lastTask state) := by
  rw [schedulerSwitchTimers]
  split
  · exact placed.setPc (State.vacant placed inside) _
  · rename_i expired popped found
    rw [schedulerTimerPop] at found
    split at found
    · cases found
    · rename_i task rest first
      split at found
      · obtain ⟨rfl, rfl⟩ := Prod.mk.inj (Option.some_inj.mp found)
        have timed : (state.whereabouts task).timed := by
          simp [State.whereabouts, first]
        refine placed.wakeTask ((placed task).timed timed) ?_ ?_
        · intro other different
          simp [different]
        · simp
      · cases found

theorem Placed.switchIdle (placed : Placed state) {lastTask : Option Word}
    (idle : ∀ task, ¬(state.whereabouts task).onCore core) :
    Placed (schedulerSwitchIdle core lastTask state) := by
  simp only [schedulerSwitchIdle]
  split
  · have stopped : Placed { state with running := state.running - 1 } := placed
    refine stopped.moveCore idle .outside fun task => ?_
    rw [schedulerStop, whereabouts_setCore core _ rfl rfl,
      replace_same (State.whereabouts _ task).onCore]
    rfl
  · exact placed.setPc idle _

theorem whereabouts_kickCores {task : Word} :
    (schedulerKickCores core state).whereabouts task = state.whereabouts task := by
  have parts : ∀ other,
      ((schedulerKickCores core state).coreLocal other).currentTask =
        (state.coreLocal other).currentTask ∧
      ((schedulerKickCores core state).coreLocal other).pc = (state.coreLocal other).pc := by
    intro other
    simp only [schedulerKickCores]
    split
    · exact ⟨rfl, rfl⟩
    · exact ⟨rfl, rfl⟩
  simp only [State.whereabouts, State.currentTask, parts]
  rfl

theorem Placed.dispatch {before : Plain cores} (placed : Placed before) {task : Word}
    {lastTask : Option Word} (vacant : ∀ task, ¬(before.whereabouts task).onCore core)
    (others : ∀ other, other ≠ task → state.whereabouts other = before.whereabouts other)
    (taken : state.whereabouts task =
      { before.whereabouts task with inQueue := fun _ => False, currentQueue := none })
    (wasReady : (before.whereabouts task).state = .ready) :
    Placed (schedulerDispatch core task lastTask state) := by
  intro other
  have running : ∀ other, (state.setTask task fun entry =>
      { entry with state := .running, core := core }).whereabouts other =
      if other = task then { state.whereabouts task with state := .running }
      else state.whereabouts other :=
    fun _ => whereabouts_setTask _ rfl rfl
  rw [schedulerDispatch, whereabouts_kickCores, schedulerOccupy, whereabouts_setCore core _ rfl rfl,
    running]
  by_cases same : other = task
  · subst other
    rw [if_pos rfl, taken]
    refine consistent_running core rfl rfl (fun _ => id) ?_ ?_ ?_ ?_
    · intro other
      by_cases eq : other = core
      · simp [eq]
      · simpa [eq] using (placed task).offCore (by simp [wasReady]) other
    · exact (placed task).isListed (by simp [wasReady])
    · exact (placed task).untimed (by simp [wasReady]) (by simp [wasReady])
    · simp
  · rw [if_neg same, others other same]
    have consistent := placed other
    have onCore : (fun core' => if core' = core then some task = some other
        else (before.whereabouts other).onCore core') = (before.whereabouts other).onCore := by
      refine replace_same _ (eq_iff_iff.mpr ⟨?_, fun onCore => (vacant other onCore).elim⟩)
      intro eq
      exact (same (Option.some_inj.mp eq).symm).elim
    rw [onCore]
    refine ⟨consistent.queued, consistent.ready, consistent.blocked, consistent.running,
      consistent.oneCore, consistent.listed, consistent.timed, ?_⟩
    intro other' isOn
    by_cases eq : other' = core
    · simp [eq]
    · simpa [eq] using consistent.outside other' isOn

theorem Placed.switchPick (placed : Placed state) {lastTask : Option Word}
    (inside : (state.coreLocal core).pc ≠ .outside) :
    Placed (schedulerSwitchPick core lastTask state) := by
  have vacant := State.vacant placed inside
  rw [schedulerSwitchPick]
  split
  · exact placed.switchIdle vacant
  · rename_i task popped found
    obtain ⟨first, isFirst, same⟩ := Option.map_eq_some_iff.mp found
    obtain ⟨rfl, rfl⟩ := Prod.mk.inj same
    have queued : first ∈ state.queue .readyQueue := List.mem_of_find?_eq_some isFirst
    have ready : (state.whereabouts first).state = .ready :=
      (placed first).ready.mpr (((placed first).queued _).mp queued)
    split
    · exact placed.dispatch vacant (fun _ different => by simp [different]) (by simp) ready
    · have idle := (placed first).offCore (by simp [ready])
      have evicted : Placed (schedulerEvict first (schedQueueRemove first state)) := by
        intro other
        by_cases same : other = first
        · subst other
          refine consistent_terminated ?_ ?_ ?_ ?_ ?_ ?_
          · simp [schedulerEvict]
          · simp [schedulerEvict]
          · simp [schedulerEvict]
          · simpa [schedulerEvict] using idle
          · simp [schedulerEvict]
          · simp [schedulerEvict]
        · simpa [schedulerEvict, same] using placed other
      refine evicted.switchIdle fun other => ?_
      by_cases same : other = first
      · subst other
        simpa [schedulerEvict] using idle core
      · simpa [schedulerEvict, same] using vacant other

theorem Placed.idleReturn (placed : Placed state) {lastTask : Option Word}
    (inside : (state.coreLocal core).pc ≠ .outside) :
    Placed (schedulerIdleReturn core lastTask state) := by
  refine placed.moveCore (State.vacant placed inside) (.drain 0 lastTask) fun task => ?_
  rw [schedulerIdleReturn, whereabouts_setCore core _ rfl rfl,
    replace_same (state.whereabouts task).onCore]
  rfl

theorem Placed.switch [NeZero cores] (placed : Placed state) {next : Plain cores}
    (done : schedulerSwitch core state = some next) : Placed next := by
  rw [schedulerSwitch] at done
  split at done
  · cases done
  · rename_i index lastTask position
    exact placed.switchDrain (by simp [position]) done
  · rename_i lastTask position
    obtain rfl := Option.some_inj.mp done
    exact placed.switchTimers (by simp [position])
  · rename_i lastTask position
    obtain rfl := Option.some_inj.mp done
    exact placed.switchPick (by simp [position])
  · rename_i lastTask position
    split at done
    · obtain rfl := Option.some_inj.mp done
      exact placed.idleReturn (by simp [position])
    · cases done

theorem whereabouts_initTask {task other : Word} {descriptor : TaskDescriptor} :
    (schedulerInitTask task descriptor state).whereabouts other =
      if other = task then
        { state.whereabouts task with state := .terminated, currentQueue := none }
      else state.whereabouts other := by
  by_cases same : other = task
  · subst other
    simp only [schedulerInitTask, State.whereabouts, State.setTask, Function.update_self, if_true]
    rfl
  · simp only [schedulerInitTask, State.whereabouts, State.setTask, Function.update_of_ne same, same,
      if_false]
    rfl

theorem Placed.createPrimordial (placed : Placed state) {task : Word}
    (fresh : (state.task task).state = .terminated)
    (outside : (state.coreLocal core).pc = .outside) (idle : state.currentTask core = none) :
    Placed (schedulerCreatePrimordial core task state) := by
  obtain ⟨unqueued, inNoQueue, offCore, untimed⟩ := placed.terminated fresh
  intro other
  rw [schedulerCreatePrimordial, whereabouts_setCurrent, whereabouts_setTask _ rfl rfl]
  by_cases same : other = task
  · subst other
    refine consistent_running core ?_ ?_ ?_ ?_ ?_ ?_ ?_
    · simp
    · simp [unqueued]
    · simp [inNoQueue]
    · intro other
      by_cases eq : other = core
      · simp [eq]
      · simpa [eq] using offCore other
    · simp
    · simp [untimed]
    · have isOutside : (state.whereabouts task).outside core := outside
      simpa using isOutside
  · have vacant : ¬(state.whereabouts other).onCore core := by
      intro onCore
      exact Option.some_ne_none other (onCore.symm.trans idle)
    have onCore : (fun core' => if core' = core then some task = some other
        else (state.whereabouts other).onCore core') = (state.whereabouts other).onCore := by
      refine replace_same _ (eq_iff_iff.mpr ⟨?_, fun onCore => (vacant onCore).elim⟩)
      intro eq
      exact (same (Option.some_inj.mp eq).symm).elim
    simp only [whereabouts_listTask, if_neg same, onCore]
    exact placed other

theorem Placed.create (placed : Placed state) {task : Word} {descriptor : TaskDescriptor}
    (possible : creatable core task descriptor state) :
    Placed (schedulerCreate core task descriptor state) := by
  simp only [creatable, Bool.and_eq_true, decide_eq_true_eq] at possible
  obtain ⟨⟨⟨⟨⟨_, _⟩, fresh⟩, outside⟩, _⟩, current⟩ := possible
  have isFresh : (state.whereabouts task).state = .terminated := fresh
  obtain ⟨unqueued, _, _, _⟩ := placed.terminated fresh
  have initialised : ∀ other, (schedulerInitTask task descriptor state).whereabouts other =
      state.whereabouts other := by
    intro other
    rw [whereabouts_initTask]
    split
    · subst other
      rw [← isFresh, ← unqueued]
    · rfl
  have stillFresh : ((schedulerInitTask task descriptor state).task task).state = .terminated := by
    simp [schedulerInitTask, State.setTask, newTask]
  rw [schedulerCreate]
  split
  · rename_i primordial
    rw [if_pos primordial] at current
    refine (placed.congr initialised).createPrimordial stillFresh outside ?_
    exact Option.isNone_iff_eq_none.mp current
  · exact (placed.congr initialised).createSvc stillFresh

theorem Placed.sleep [NeZero cores] (placed : Placed state) {ticks : Word} {next : Plain cores}
    (runs : (state.currentTask core).isSome)
    (done : schedulerSleep core ticks state = some next) : Placed next := by
  rw [schedulerSleep] at done
  split at done
  · obtain rfl := Option.some_inj.mp done
    rw [schedulerYield]
    split
    · exact placed
    · exact placed.requestSwitch
  · obtain ⟨current, isCurrent⟩ := Option.isSome_iff_exists.mp runs
    refine placed.suspend (Or.inl ?_) done
    simp [taskOrCurrent, schedGetCurrent, isCurrent]

theorem single_of_guard {task : Word}
    (allowed : ¬(cores > 1 ∧ some task ≠ schedGetCurrent core state)) :
    state.currentTask core = some task ∨ ∀ other : Fin cores, other = core := by
  by_cases isCurrent : some task = schedGetCurrent core state
  · exact Or.inl isCurrent.symm
  · refine Or.inr fun other => ?_
    have few : ¬cores > 1 := fun many => allowed ⟨many, isCurrent⟩
    exact Fin.ext (by omega)

theorem Placed.suspendTask [NeZero cores] (placed : Placed state) {task : Word}
    {next : Plain cores} (done : schedulerSuspend core task state = some next) : Placed next := by
  simp only [schedulerSuspend] at done
  split at done
  · obtain rfl := Option.some_inj.mp done
    exact placed.returnResult _
  · rename_i allowed
    exact placed.suspend (single_of_guard allowed) done

theorem Placed.terminateTask (placed : Placed state) {task : Word} :
    Placed (schedulerTerminate core task state) := by
  simp only [schedulerTerminate]
  split
  · exact placed.returnResult _
  · rename_i allowed
    exact placed.terminate (single_of_guard allowed)

theorem Placed.setPriority (placed : Placed state) {task : Word} {priority : Nat} :
    Placed (schedulerSetPriority core task priority state) := by
  rw [schedulerSetPriority]
  split
  · exact placed.returnResult _
  · exact placed.priority _ _

theorem Placed.tickTimers [NeZero cores] (placed : Placed state) :
    Placed (schedulerTickTimers core state) := by
  rw [schedulerTickTimers]
  split
  · exact placed.requestSwitch
  · exact placed

theorem Placed.tickSlice (placed : Placed state) : Placed (schedulerTickSlice core state) := by
  simp only [schedulerTickSlice]
  have counted : Placed (state.setCore core fun coreLocal =>
      { coreLocal with sliceExpires := coreLocal.sliceExpires - 1 }) :=
    placed.congr fun _ => whereabouts_setCore_same core _ rfl rfl
  split
  · split
    · exact counted.requestSwitch
    · exact counted
  · exact placed

theorem Placed.tick [NeZero cores] (placed : Placed state) : Placed (schedulerTick core state) := by
  simp only [schedulerTick]
  split
  · refine Placed.tickSlice (Placed.tickTimers ?_)
    exact placed.congr fun _ => whereabouts_setCore_same core _ rfl rfl
  · exact placed

theorem Placed.futexWakeDeferred (placed : Placed state) {futex : Word} {all : Bool} :
    Placed (schedulerFutexWakeDeferred core futex all state) := by
  simp only [schedulerFutexWakeDeferred]
  split
  · exact placed
  · split
    · exact placed
    · refine Placed.requestSwitch ?_
      exact placed.congr fun _ => whereabouts_setCore_same core _ rfl rfl

theorem Placed.start (placed : Placed state) : Placed (schedulerStart core state) := by
  refine Placed.requestSwitch ?_
  have counted : Placed { state with running := state.running + 1 } := placed
  exact counted.congr fun _ => whereabouts_setCore_same core _ rfl rfl

theorem Placed.futexInit (placed : Placed state) {futex value flags : Word}
    (empty : state.queue (.waiters futex) = []) :
    Placed (schedulerFutexInit futex value flags state) := by
  refine placed.congr fun task => ?_
  have queues : Store.initHead state.queues (.waiters futex) = state.queues :=
    Function.update_eq_self_iff.mpr empty.symm
  simp only [schedulerFutexInit, queues]
  rfl

theorem Placed.step [NeZero cores] (placed : Placed state) {action : Action cores}
    {next : Plain cores} (done : step state action = some next) : Placed next := by
  cases schedulerSteps done with
  | create core task descriptor possible => exact placed.create possible
  | start core _ _ => exact placed.start
  | yield core _ =>
      rw [schedulerYield]
      split
      · exact placed
      · exact placed.requestSwitch
  | sleep core ticks possible done =>
      exact placed.sleep (Option.isSome_iff_exists.mpr (State.exists_current possible)) done
  | suspend core task _ done => exact placed.suspendTask done
  | resume core task _ _ => exact placed.resume task
  | terminate core task _ => exact placed.terminateTask
  | setPriority core task priority _ => exact placed.setPriority
  | setFlags task mask _ => exact placed.congr fun _ => whereabouts_setTask_same _ rfl rfl
  | clearFlags task mask _ => exact placed.congr fun _ => whereabouts_setTask_same _ rfl rfl
  | futexInit futex value flags empty => exact placed.futexInit empty
  | futexWait core futex value ticks _ done => exact placed.wait done
  | futexWake core futex all _ done => exact placed.wake done
  | lock => exact placed
  | unlock => exact placed
  | lockRestore lock => exact placed
  | store address value => exact placed
  | smashStack task => exact placed.congr fun _ => whereabouts_setTask_same _ rfl rfl
  | tick core => exact placed.tick
  | interruptWake core futex all _ => exact placed.futexWakeDeferred
  | switchEnter core _ _ _ => exact placed.switchEnter
  | switchStep core done => exact placed.switch done

theorem Placed.initial [NeZero cores] (begins : (abstractScheduler cores).initial state) :
    Placed state := by
  obtain ⟨memory, sliceDuration, rfl⟩ := begins
  intro task
  refine consistent_terminated rfl rfl ?_ ?_ ?_ ?_
  · exact fun _ => List.not_mem_nil
  · intro core onCore
    cases onCore
  · exact List.not_mem_nil
  · exact List.not_mem_nil

theorem placed_of_reachable [NeZero cores] (reached : (abstractScheduler cores).Reachable state) :
    Placed state :=
  reached.invariant (fun _ => Placed.initial) fun _ _ _ placed done => Placed.step placed done

end PicoToolkit
