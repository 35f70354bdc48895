import PicoToolkit.Scheduler.ReadyOrder
import PicoToolkit.Scheduler.WellPlaced

/-!
The choice of `scheduler_switch`: which task it runs, which other cores it kicks for the tasks that it
leaves, and when it idles.
-/

namespace PicoToolkit

open Ring Transition

section Choice

variable {R : Type → Type → Type} [Store R] {cores : Nat} {state : State R cores} {core : Fin cores}

def firstEligible (core : Fin cores) (state : State R cores) : Option Word :=
  (state.queue .readyQueue).find? fun task => (state.task task).eligible core

/-- The choice finds no task, runs the first eligible one, or evicts it and idles. -/
inductive Chosen (core : Fin cores) (lastTask : Option Word) (state : State R cores) :
    State R cores → Prop
  | nothing (none_ : firstEligible core state = none) :
      Chosen core lastTask state (schedulerSwitchIdle core lastTask state)
  | dispatched {task} (first : firstEligible core state = some task)
      (intact : schedulerCheckStack (state.task task) = true) :
      Chosen core lastTask state
        (schedulerDispatch core task lastTask (schedQueueRemove task state))
  | evicted {task} (first : firstEligible core state = some task)
      (damaged : schedulerCheckStack (state.task task) = false) :
      Chosen core lastTask state
        (schedulerSwitchIdle core lastTask (schedulerEvict task (schedQueueRemove task state)))

theorem checkStack_queueRemove (task other : Word) :
    schedulerCheckStack ((schedQueueRemove task state).task other) =
      schedulerCheckStack (state.task other) := by
  rw [schedQueueRemove, State.setTask]
  by_cases touched : other = task
  · subst other
    simp only [Function.update_self]
    rfl
  · simp only [Function.update_of_ne touched]

theorem switchPick_chosen (core : Fin cores) (lastTask : Option Word) (state : State R cores) :
    Chosen core lastTask state (schedulerSwitchPick core lastTask state) := by
  rw [schedulerSwitchPick, schedQueuePop]
  cases first : firstEligible core state with
  | none =>
      rw [firstEligible] at first
      simp only [first]
      exact .nothing first
  | some task =>
      have found := first
      rw [firstEligible] at found
      simp only [found, Option.map_some, checkStack_queueRemove]
      by_cases intact : schedulerCheckStack (state.task task) = true
      · rw [if_pos intact]
        exact .dispatched first intact
      · rw [if_neg intact]
        exact .evicted first (by simpa using intact)

theorem currentTask_switchIdle (lastTask : Option Word) (other : Fin cores) :
    (schedulerSwitchIdle core lastTask state).currentTask other = state.currentTask other := by
  rw [schedulerSwitchIdle]
  by_cases same : other = core
  · subst other
    split
    · simp [schedulerStop, State.currentTask, State.setCore]
    · simp [setPc, State.currentTask, State.setCore]
  · split
    · simp [schedulerStop, State.currentTask, State.setCore, same]
    · simp [setPc, State.currentTask, State.setCore, same]

theorem currentTask_dispatch (task : Word) (lastTask : Option Word) (other : Fin cores) :
    (schedulerDispatch core task lastTask state).currentTask other =
      if other = core then some task else state.currentTask other := by
  have kicked : (schedulerDispatch core task lastTask state).currentTask other =
      (schedulerOccupy core task lastTask (state.setTask task fun entry =>
        { entry with state := .running, core := core })).currentTask other := by
    simp only [schedulerDispatch, schedulerKickCores, State.currentTask]
    split <;> rfl
  rw [kicked, schedulerOccupy]
  by_cases same : other = core
  · subst other
    simp [State.currentTask, State.setCore]
  · simp [State.currentTask, State.setCore, State.setTask, same]

theorem queue_switchIdle (lastTask : Option Word) (queue : QueueId) :
    (schedulerSwitchIdle core lastTask state).queue queue = state.queue queue := by
  rw [schedulerSwitchIdle]
  split <;> rfl

theorem task_switchIdle (lastTask : Option Word) :
    (schedulerSwitchIdle core lastTask state).task = state.task := by
  rw [schedulerSwitchIdle]
  split <;> rfl

theorem pendSv_dispatch (task : Word) (lastTask : Option Word) {other : Fin cores}
    (different : other ≠ core) :
    let next := schedulerDispatch core task lastTask state
    (next.coreLocal other).pendSv = (schedulerKicks next other || (state.coreLocal other).pendSv) := by
  intro next
  let occupied := schedulerOccupy core task lastTask (state.setTask task fun entry =>
    { entry with state := .running, core := core })
  have left : occupied.coreLocal other = state.coreLocal other := by
    simp [occupied, schedulerOccupy, State.setCore, State.setTask, different]
  have current : next.currentTask other = occupied.currentTask other := by
    simp only [next, schedulerDispatch, schedulerKickCores, State.currentTask]
    split <;> rfl
  have same : schedulerKicks next other = schedulerKicks occupied other := by
    rw [schedulerKicks, schedulerKicks, current]
    rfl
  have kicked : next.coreLocal other =
      if other ≠ core ∧ schedulerKicks occupied other then
        { occupied.coreLocal other with pendSv := true }
      else occupied.coreLocal other := rfl
  rw [same, kicked]
  cases kicks : schedulerKicks occupied other with
  | false => simp [left]
  | true => simp [different]

theorem task_evict (damaged : Word) {other : Word} (different : other ≠ damaged) :
    (schedulerEvict damaged (schedQueueRemove damaged state)).task other = state.task other := by
  simp [schedulerEvict, schedQueueRemove, setResult, setTaskState, State.setTask, State.unlinkTimer,
    State.unlistTask, different]

theorem state_evict (damaged : Word) :
    ((schedulerEvict damaged (schedQueueRemove damaged state)).task damaged).state = .terminated := by
  simp [schedulerEvict, schedQueueRemove, setResult, setTaskState, State.setTask, State.unlinkTimer,
    State.unlistTask]

theorem queues_switchEnter {task : Word} (runs : state.currentTask core = some task)
    (unlocked : ¬state.locked < 0) :
    ∃ entry, (schedulerSwitchEnter core state).queues =
      Store.insert state.queues .readyQueue entry task := by
  have current : schedGetCurrent core state = some task := runs
  have still : ¬(schedSetCurrent core none (state.setCore core fun coreLocal =>
      { coreLocal with pendSv := false })).locked < 0 := unlocked
  rw [schedulerSwitchEnter, current]
  simp only [if_neg still]
  exact ⟨_, rfl⟩

end Choice

section Reachable

variable {cores : Nat} [NeZero cores] {state next : State Links cores} {core : Fin cores}
  {lastTask : Option Word} {task : Word}

theorem mem_readyQueue_iff (reached : (scheduler cores).Reachable state) :
    task ∈ state.queue .readyQueue ↔ (state.task task).state = .ready := by
  have placed := wellPlaced_of_reachable reached
  rw [placed.ready, List.Nodup.count (placed.queues.nodup .readyQueue)]
  simp

theorem currentTask_inside (reached : (scheduler cores).Reachable state)
    (inside : (state.coreLocal core).pc ≠ .outside) : state.currentTask core = none := by
  have placed := placed_of_reachable ((scheduler_simulation cores).reachable reached).2
  have vacant := State.vacant placed inside
  cases current : state.currentTask core with
  | none => rfl
  | some task => exact (vacant task current).elim

theorem step_pick (picks : (state.coreLocal core).pc = .pick lastTask)
    (moved : step state (.switchStep core) = some next) : Chosen core lastTask state next := by
  have chosen := switchPick_chosen core lastTask state
  have same : some (schedulerSwitchPick core lastTask state) = some next := by
    rw [← moved, step, schedulerSwitch, picks]
  rw [← Option.some.inj same]
  exact chosen

theorem step_pick_runs (reached : (scheduler cores).Reachable state)
    (picks : (state.coreLocal core).pc = .pick lastTask)
    (moved : step state (.switchStep core) = some next) (runs : next.currentTask core = some task) :
    firstEligible core state = some task ∧ schedulerCheckStack (state.task task) = true ∧
      next = schedulerDispatch core task lastTask (schedQueueRemove task state) := by
  have vacant : state.currentTask core = none := currentTask_inside reached (by rw [picks]; simp)
  cases step_pick picks moved with
  | nothing none_ =>
      rw [currentTask_switchIdle, vacant] at runs
      cases runs
  | @dispatched dispatched first intact =>
      rw [currentTask_dispatch, if_pos rfl] at runs
      obtain rfl := Option.some.inj runs
      exact ⟨first, intact, rfl⟩
  | evicted first damaged =>
      rw [currentTask_switchIdle] at runs
      exact (Option.some_ne_none task (runs.symm.trans vacant)).elim

theorem step_pick_idles (picks : (state.coreLocal core).pc = .pick lastTask)
    (moved : step state (.switchStep core) = some next) (idles : next.currentTask core = none) :
    firstEligible core state = none ∧ next = schedulerSwitchIdle core lastTask state ∨
      ∃ damaged, firstEligible core state = some damaged ∧
        schedulerCheckStack (state.task damaged) = false ∧
        next = schedulerSwitchIdle core lastTask
          (schedulerEvict damaged (schedQueueRemove damaged state)) := by
  cases step_pick picks moved with
  | nothing none_ => exact .inl ⟨none_, rfl⟩
  | dispatched first intact =>
      rw [currentTask_dispatch, if_pos rfl] at idles
      cases idles
  | evicted first damaged => exact .inr ⟨_, first, damaged, rfl⟩

theorem kicks_iff (reached : (scheduler cores).Reachable state) {running : Word}
    (runs : state.currentTask core = some running) :
    schedulerKicks state core = true ↔ ∃ left ∈ state.queue .readyQueue,
      (state.task left).eligible core = true ∧
        (state.task left).currentPriority < (state.task running).currentPriority := by
  rw [schedulerKicks, runs]
  dsimp only
  cases found : (state.queue .readyQueue).find? fun cursor => (state.task cursor).eligible core with
  | none =>
      refine iff_of_false (by simp) ?_
      rintro ⟨left, member, eligible, _⟩
      exact List.find?_eq_none.mp found left member eligible
  | some first =>
      have eligible : (state.task first).eligible core = true := by simpa using List.find?_some found
      rw [decide_eq_true_eq]
      constructor
      · exact fun urgent => ⟨first, List.mem_of_find?_eq_some found, eligible, urgent⟩
      · rintro ⟨left, member, may, urgent⟩
        exact Nat.lt_of_le_of_lt (first_le reached found member may) urgent

/-- When a switch returns a task, another core that runs one has been asked to switch by it just when a task
left in the ready queue is more urgent for that core. -/
theorem switch_kicks {other : Fin cores} {running : Word} (reached : (scheduler cores).Reachable state)
    (picks : (state.coreLocal core).pc = .pick lastTask)
    (moved : step state (.switchStep core) = some next) (returns : next.currentTask core = some task)
    (different : other ≠ core) (runs : next.currentTask other = some running) :
    (next.coreLocal other).pendSv = true ↔
      (state.coreLocal other).pendSv = true ∨ ∃ left ∈ next.queue .readyQueue,
        (next.task left).eligible other = true ∧
          (next.task left).currentPriority < (next.task running).currentPriority := by
  have moves : (scheduler cores).step state (.switchStep core) = some next := moved
  have reachedNext : (scheduler cores).Reachable next := reached.step moves
  obtain ⟨_, _, dispatches⟩ := step_pick_runs reached picks moved returns
  have pends : (next.coreLocal other).pendSv =
      (schedulerKicks next other || (state.coreLocal other).pendSv) := by
    rw [dispatches]
    exact pendSv_dispatch task lastTask different
  rw [pends, Bool.or_eq_true, kicks_iff reachedNext runs, or_comm]

/-- Core 1 runs its primordial task when core 0 takes the task at 0x3000, and the one at 0x2000 is left. -/
def kickRun : List (Action 2) :=
  [.create 0 0x1000 { flags := schedulerPrimordialTask, priority := 32 },
    .create 1 0x1100 { flags := schedulerPrimordialTask, priority := 32 }, .start 0,
    .create 0 0x2000 { priority := 31 }, .create 0 0x3000 { priority := 30 },
    .switchEnter 0, .switchStep 0, .switchStep 0]

theorem switch_kicks_idle :
    ∃ state next : State Links 2, (scheduler 2).Reachable state ∧
      step state (.switchStep 0) = some next ∧ (state.coreLocal 1).pendSv = false ∧
      (next.coreLocal 1).pendSv = true := by
  obtain ⟨state, reached, picks, moves, quiet⟩ :=
    System.exists_of_run (fun _ _ => True) (initial_bootState 2) kickRun
      (fun state => (state.coreLocal 0).pc = .pick (some 0x1000) ∧
        ((step state (.switchStep 0)).any fun next => decide (next.currentTask 0 = some 0x3000 ∧
          next.currentTask 1 = some 0x1100 ∧ 0x2000 ∈ next.queue .readyQueue ∧
          (next.task 0x2000).eligible (1 : Fin 2) = true ∧
          (next.task 0x2000).currentPriority < (next.task 0x1100).currentPriority)) ∧
        (state.coreLocal 1).pendSv = false)
      (by decide)
  obtain ⟨next, moved, holds⟩ := (Option.any_eq_true _ _).mp moves
  obtain ⟨runs, other, left, eligible, urgent⟩ := of_decide_eq_true holds
  exact ⟨state, next, reached, moved, quiet,
    (switch_kicks reached picks moved runs (by decide) other).mpr
      (.inr ⟨0x2000, left, eligible, urgent⟩)⟩

/-- A damaged task comes first in the queue of the core, and an intact one waits behind it. -/
def HidesIntact (core : Fin cores) (state : State Links cores) : Prop :=
  ∃ damaged, firstEligible core state = some damaged ∧
    schedulerCheckStack (state.task damaged) = false ∧
    ∃ other ∈ state.queue .readyQueue, (state.task other).eligible core = true ∧
      schedulerCheckStack (state.task other) = true

/-- A core that stops or idles leaves no intact task in the ready queue that it may run, unless it has just
evicted the damaged one before it. -/
theorem switch_conserves (reached : (scheduler cores).Reachable state)
    (picks : (state.coreLocal core).pc = .pick lastTask)
    (moved : step state (.switchStep core) = some next) (idles : next.currentTask core = none) :
    (∀ other ∈ next.queue .readyQueue, (next.task other).eligible core = true →
        schedulerCheckStack (next.task other) = false) ↔ ¬HidesIntact core state := by
  have moves : (scheduler cores).step state (.switchStep core) = some next := moved
  have ready (other : Word) : other ∈ state.queue .readyQueue ↔ (state.task other).state = .ready :=
    mem_readyQueue_iff reached
  have readyNext (other : Word) : other ∈ next.queue .readyQueue ↔ (next.task other).state = .ready :=
    mem_readyQueue_iff (reached.step moves)
  rcases step_pick_idles picks moved idles with ⟨none_, rfl⟩ | ⟨damaged, first, broken, rfl⟩
  · have nowhere := List.find?_eq_none.mp none_
    rw [queue_switchIdle, task_switchIdle]
    refine iff_of_true (fun other member eligible => (nowhere other member eligible).elim) ?_
    rintro ⟨damaged, first, _⟩
    exact Option.some_ne_none damaged (first.symm.trans none_)
  · simp only [task_switchIdle] at readyNext ⊢
    constructor
    · rintro noneLeft ⟨damaged', first', _, other, member, eligible, intact⟩
      have different : other ≠ damaged := by
        rintro rfl
        rw [broken] at intact
        cases intact
      have same : (schedulerEvict damaged (schedQueueRemove damaged state)).task other = state.task other :=
        task_evict damaged different
      have stays := (readyNext other).mpr (by rw [same]; exact (ready other).mp member)
      have fails := noneLeft other stays (by rw [same]; exact eligible)
      rw [same, intact] at fails
      cases fails
    · intro hidesNone other member eligible
      have isReady := (readyNext other).mp member
      have different : other ≠ damaged := by
        rintro rfl
        rw [state_evict] at isReady
        cases isReady
      rw [task_evict damaged different] at isReady eligible ⊢
      by_contra intact
      exact hidesNone ⟨damaged, first, broken, other, (ready other).mpr isReady, eligible,
        by simpa using intact⟩

/-- Two damaged tasks are left when the running one goes to sleep. -/
def damagedRun : List (Action 1) :=
  oneRunner ++ [Action.create 0 0x3000 { flags := schedulerTaskStackCheck, priority := 31 },
    .create 0 0x4000 { flags := schedulerTaskStackCheck, priority := 31 }, .smashStack 0x3000,
    .smashStack 0x4000, .sleep 0 5, .switchEnter 0, .switchStep 0, .switchStep 0]

theorem switch_conserves_damaged :
    ∃ state next : State Links 1, (scheduler 1).Reachable state ∧
      step state (.switchStep 0) = some next ∧ firstEligible 0 state = some 0x3000 ∧
      0x4000 ∈ next.queue .readyQueue ∧
      ((∀ other ∈ next.queue .readyQueue, (next.task other).eligible (0 : Fin 1) = true →
        schedulerCheckStack (next.task other) = false) ↔ ¬HidesIntact 0 state) := by
  obtain ⟨state, reached, picks, first, moves⟩ :=
    System.exists_of_run (fun _ _ => True) (initial_bootState 1) damagedRun
      (fun state => (state.coreLocal 0).pc = .pick none ∧ firstEligible 0 state = some 0x3000 ∧
        ((step state (.switchStep 0)).any fun next =>
          decide (next.currentTask 0 = none ∧ 0x4000 ∈ next.queue .readyQueue)))
      (by decide)
  obtain ⟨next, moved, holds⟩ := (Option.any_eq_true _ _).mp moves
  obtain ⟨idles, left⟩ := of_decide_eq_true holds
  exact ⟨state, next, reached, moved, first, left, switch_conserves reached picks moved idles⟩

def evictionRun : List (Action 1) :=
  oneRunner ++ [Action.create 0 0x3000 { flags := schedulerTaskStackCheck, priority := 31 },
    .create 0 0x4000 { priority := 31 }, .smashStack 0x3000, .sleep 0 5, .switchEnter 0,
    .switchStep 0, .switchStep 0]

theorem evicts_and_idles :
    ∃ state next : State Links 1, (scheduler 1).Reachable state ∧
      step state (.switchStep 0) = some next ∧ (next.coreLocal 0).pc = .idle none ∧
      0x4000 ∈ next.queue .readyQueue ∧ (next.task 0x4000).eligible (0 : Fin 1) = true ∧
      schedulerCheckStack (next.task 0x4000) = true := by
  obtain ⟨state, reached, moves⟩ :=
    System.exists_of_run (fun _ _ => True) (initial_bootState 1) evictionRun
      (fun state => (step state (.switchStep 0)).any fun next => decide (
          (next.coreLocal 0).pc = .idle none ∧ 0x4000 ∈ next.queue .readyQueue ∧
          (next.task 0x4000).eligible (0 : Fin 1) = true ∧
          schedulerCheckStack (next.task 0x4000) = true))
      (by decide)
  obtain ⟨next, moved, holds⟩ := (Option.any_eq_true _ _).mp moves
  exact ⟨state, next, reached, moved, of_decide_eq_true holds⟩

def Precedes (state : State Links cores) (stamped : State Stamped cores) (first second : Word) : Prop :=
  (state.task first).currentPriority < (state.task second).currentPriority ∨
    (state.task first).currentPriority = (state.task second).currentPriority ∧
      stamped.queues.stamp first < stamped.queues.stamp second

theorem pick_precedes {stamped : State Stamped cores}
    (reached : (observedScheduler cores).Reachable (state, stamped))
    (picks : (state.coreLocal core).pc = .pick lastTask)
    (moved : step state (.switchStep core) = some next) (runs : next.currentTask core = some task) :
    (state.task task).state = .ready ∧ (state.task task).eligible core = true ∧
      schedulerCheckStack (state.task task) = true ∧
      ∀ other, (state.task other).state = .ready → (state.task other).eligible core = true →
        other ≠ task → Precedes state stamped task other := by
  have reachedState : (scheduler cores).Reachable state := reached.of_beside.1
  obtain ⟨first, intact, _⟩ := step_pick_runs reachedState picks moved runs
  rw [firstEligible] at first
  have member := List.mem_of_find?_eq_some first
  refine ⟨(mem_readyQueue_iff reachedState).mp member, by simpa using List.find?_some first, intact, ?_⟩
  intro other ready eligible different
  exact (Remembers.of_observed reached).first first ((mem_readyQueue_iff reachedState).mpr ready)
    eligible different

theorem enter_last {stamped stampedNext : State Stamped cores}
    (reached : (observedScheduler cores).Reachable (state, stamped))
    (runs : state.currentTask core = some task) (unlocked : ¬state.locked < 0)
    (moved : (observedScheduler cores).step (state, stamped) (.switchEnter core) =
      some (next, stampedNext)) :
    (next.task task).state = .ready ∧ ∀ other, (next.task other).state = .ready → other ≠ task →
      stampedNext.queues.stamp other < stampedNext.queues.stamp task := by
  have remembers := Remembers.of_observed reached
  have reachedNext : (observedScheduler cores).Reachable (next, stampedNext) := reached.step moved
  have later := Remembers.of_observed reachedNext
  have enters : schedulerSwitchEnter core stamped = stampedNext := by
    have stepped : step stamped (.switchEnter core) = some stampedNext := (System.beside_step moved).2
    rw [step, Option.ite_none_right_eq_some] at stepped
    exact Option.some.inj stepped.2
  have current : stamped.currentTask core = some task := by
    have same : stamped.coreLocal = state.coreLocal := congrArg State.coreLocal remembers.reads
    rw [State.currentTask, same]
    exact runs
  have notLocked : ¬stamped.locked < 0 := by
    have same : stamped.locked = state.locked := congrArg State.locked remembers.reads
    rw [same]
    exact unlocked
  obtain ⟨entry, inserted⟩ := queues_switchEnter current notLocked
  rw [enters] at inserted
  have lists (other : Word) : other ∈ next.queue .readyQueue ↔
      other = task ∨ other ∈ stamped.queues.lists .readyQueue := by
    rw [← later.queue, inserted]
    exact Family.mem_insert.trans (by simp)
  have ready (other : Word) : other ∈ next.queue .readyQueue ↔ (next.task other).state = .ready :=
    mem_readyQueue_iff reachedNext.of_beside.1
  refine ⟨(ready task).mp ((lists task).mpr (.inl rfl)), fun other isReady different => ?_⟩
  have old : other ∈ stamped.queues.lists .readyQueue :=
    ((lists other).mp ((ready other).mpr isReady)).resolve_left different
  rw [inserted]
  change Function.update stamped.queues.stamp task stamped.queues.clock other <
    Function.update stamped.queues.stamp task stamped.queues.clock task
  rw [Function.update_self, Function.update_of_ne different]
  exact remembers.inOrder.fresh other old

end Reachable

/-- Selection: beside every reachable state there is the history of the insertions; the switch runs the
eligible ready task that is most urgent, and of these the one inserted first; and a preempted task has been
inserted last of those ready at the entry to the switch. -/
theorem switch_selects (cores : Nat) [NeZero cores] :
    (∀ state, (scheduler cores).Reachable state →
      ∃ stamped, (observedScheduler cores).Reachable (state, stamped)) ∧
    ∀ state stamped, (observedScheduler cores).Reachable (state, stamped) → ∀ core,
      (∀ lastTask next task, (state.coreLocal core).pc = .pick lastTask →
        step state (.switchStep core) = some next → next.currentTask core = some task →
          (state.task task).state = .ready ∧ (state.task task).eligible core = true ∧
            schedulerCheckStack (state.task task) = true ∧
            ∀ other, (state.task other).state = .ready → (state.task other).eligible core = true →
              other ≠ task → Precedes state stamped task other) ∧
      ∀ task next stampedNext, state.currentTask core = some task → ¬state.locked < 0 →
        (observedScheduler cores).step (state, stamped) (.switchEnter core) =
          some (next, stampedNext) →
            (next.task task).state = .ready ∧ ∀ other, (next.task other).state = .ready →
              other ≠ task → stampedNext.queues.stamp other < stampedNext.queues.stamp task := by
  refine ⟨fun state reached => ?_, fun state stamped reached core => ⟨?_, ?_⟩⟩
  · obtain ⟨stamped, together, _⟩ := exists_observed reached
    exact ⟨stamped, together⟩
  · exact fun lastTask next task picks moved runs => pick_precedes reached picks moved runs
  · exact fun task next stampedNext runs unlocked moved => enter_last reached runs unlocked moved

/-- The tasks at 0x2000 and 0x3000 have the same priority; the first one is preempted when the timer of the
second one expires. -/
def expiryRun : List (Action 1) :=
  oneRunner ++ [Action.create 0 0x3000 { priority := 31 }, .yield 0] ++ switchPass ++
    [Action.sleep 0 1] ++ switchPass ++
    [Action.tick 0, .switchEnter 0, .switchStep 0, .switchStep 0, .switchStep 0]

/-- The preempted task has been inserted before the one whose timer expires in the same switch, and runs. -/
theorem preempted_before_expired :
    ∃ state next, (scheduler 1).Reachable state ∧ (state.coreLocal 0).pc = .pick (some 0x2000) ∧
      step state (.switchStep 0) = some next ∧ next.currentTask 0 = some 0x2000 ∧
      (state.task 0x3000).state = .ready ∧ (state.task 0x3000).eligible 0 = true ∧
      (state.task 0x3000).currentPriority = (state.task 0x2000).currentPriority := by
  obtain ⟨state, reached, picks, moves, ready, eligible, same⟩ :=
    System.exists_of_run (fun _ _ => True) (initial_bootState 1) expiryRun
      (fun state => (state.coreLocal 0).pc = .pick (some 0x2000) ∧
        ((step state (.switchStep 0)).bind fun next => next.currentTask 0) = some 0x2000 ∧
        (state.task 0x3000).state = .ready ∧ (state.task 0x3000).eligible 0 = true ∧
        (state.task 0x3000).currentPriority = (state.task 0x2000).currentPriority)
      (by decide)
  obtain ⟨next, moved, runs⟩ := Option.bind_eq_some_iff.mp moves
  exact ⟨state, next, reached, picks, moved, runs, ready, eligible, same⟩

theorem switch_selects_preempted :
    ∃ state stamped, (observedScheduler 1).Reachable (state, stamped) ∧
      (state.task 0x3000).currentPriority = (state.task 0x2000).currentPriority ∧
      Precedes state stamped 0x2000 0x3000 := by
  obtain ⟨state, reached, picks, moves, ready, eligible, same⟩ :=
    System.exists_of_run (fun _ _ => True) (initial_bootState 1) expiryRun
      (fun state => (state.coreLocal 0).pc = .pick (some 0x2000) ∧
        ((step state (.switchStep 0)).bind fun next => next.currentTask 0) = some 0x2000 ∧
        (state.task 0x3000).state = .ready ∧ (state.task 0x3000).eligible (0 : Fin 1) = true ∧
        (state.task 0x3000).currentPriority = (state.task 0x2000).currentPriority)
      (by decide)
  obtain ⟨next, moved, runs⟩ := Option.bind_eq_some_iff.mp moves
  obtain ⟨stamped, together⟩ := (switch_selects 1).1 state reached
  have selected := ((switch_selects 1).2 state stamped together 0).1 (some 0x2000) next 0x2000 picks
    moved runs
  exact ⟨state, stamped, together, same, selected.2.2.2 0x3000 ready eligible (by decide)⟩

end PicoToolkit
