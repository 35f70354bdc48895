import PicoToolkit.Scheduler.WellPlaced

/-!
What `scheduler_terminate_svc` and the stack check leave behind of the task they remove.
-/

namespace PicoToolkit

open Ring Transition

variable {R : Type → Type → Type} [Store R] {cores : Nat} [NeZero cores]

def removed (state : State R cores) : Action cores → Option Word
  | .terminate core task =>
      let task := taskOrCurrent core task state
      if cores > 1 ∧ some task ≠ schedGetCurrent core state then none
      else if schedulerTaskAlive task state then some task else none
  | .switchStep core =>
      match (state.coreLocal core).pc with
      | .pick _ =>
          match (state.queue .readyQueue).find? fun task => (state.task task).eligible core with
          | none => none
          | some task => if schedulerCheckStack (state.task task) then none else some task
      | _ => none
  | _ => none

/-- A link field of a futex in use, or the list of contended futexes of another live task. -/
def State.Live (state : State R cores) (task : Word) : Node Word Word → Prop
  | .node futex => (state.futex futex).marker
  | .head other => other ≠ task ∧ other ∈ state.taskList

def State.OwnsNone (state : State R cores) (task : Word) : Prop :=
  ∀ node, state.Live task node →
    ¬state.ownedFutexes.Reaches node (.head task) ∧ ¬state.ownedFutexes.Reaches (.head task) node

/-- No list runs through a link field of the task, and its own list holds no futex in use. -/
structure State.Forgets (state : State Links cores) (task : Word) : Prop where
  queues : ∀ node, state.queues.Reaches node (.node task) → node = .node task
  timers : ∀ node, state.timers.Reaches node (.node task) → node = .node task
  tasks : ∀ node, state.tasks.Reaches node (.node task) → node = .node task
  owned : state.OwnsNone task

omit [NeZero cores] in
theorem WellPlaced.forgets {state : State Links cores} {task : Word} (placed : WellPlaced state)
    (terminated : (state.task task).state = .terminated) :
    state.Forgets task ↔ state.OwnsNone task := by
  refine ⟨fun forgets => forgets.owned, fun owned => ?_⟩
  obtain ⟨unlisted, untimed⟩ := placed.terminated task terminated
  constructor
  · intro node
    exact placed.queues.alone (placed.unqueued task (Or.inr terminated))
  · intro node
    exact placed.timers.alone fun _ => untimed
  · intro node
    exact placed.tasks.alone fun _ => unlisted
  · exact owned

/-- The owned lists, the futexes and the other tasks are as before, and the task is terminated. -/
structure Removes (state next : Plain cores) (task : Word) : Prop where
  owned : next.ownedFutexes = state.ownedFutexes
  futex : next.futex = state.futex
  listed : ∀ other, other ≠ task → (other ∈ next.taskList ↔ other ∈ state.taskList)
  terminated : (next.task task).state = .terminated

namespace Removes

variable {state next : Plain cores} {core : Fin cores} {task : Word}

omit [NeZero cores] in
theorem ownsNone (removes : Removes state next task) :
    next.OwnsNone task ↔ state.OwnsNone task := by
  have live : next.Live task = state.Live task := by
    funext node
    cases node with
    | head other =>
        simp only [State.Live, eq_iff_iff, and_congr_right_iff]
        exact removes.listed other
    | node futex => simp only [State.Live, removes.futex]
  simp only [State.OwnsNone, live, removes.owned]

omit [NeZero cores] in
theorem of_whereabouts (owned : next.ownedFutexes = state.ownedFutexes)
    (futex : next.futex = state.futex)
    (whereabouts : ∀ other, (next.whereabouts other).listed ↔
      other ≠ task ∧ (state.whereabouts other).listed)
    (terminated : (next.whereabouts task).state = .terminated) : Removes state next task := by
  refine ⟨owned, futex, fun other different => ?_, terminated⟩
  exact (whereabouts other).trans (and_iff_right different)

omit [NeZero cores] in
theorem terminateSvc (alive : schedulerTaskAlive task state) :
    Removes state (schedulerTerminateSvc core task state) task := by
  have shape : ∀ current : Plain cores,
      (current = returnResult core (.value 0) state) →
      Removes state ((schedulerTimerRemove task (schedQueueRemove task
        (setTaskStateOff task .terminated current))).unlistTask task) task := by
    rintro current rfl
    refine of_whereabouts ?_ ?_ ?_ ?_
    · rw [returnResult]
      split
      · rfl
      · rfl
    · rw [returnResult]
      split
      · rfl
      · rfl
    · intro other
      by_cases same : other = task
      · simp [same]
      · simp [same]
    · simp
  have gone := shape _ rfl
  simp only [schedulerTerminateSvc, alive, if_true]
  split
  · exact ⟨gone.owned, gone.futex, gone.listed, gone.terminated⟩
  · exact gone

omit [NeZero cores] in
theorem evict : Removes state (schedulerEvict task state) task := by
  refine of_whereabouts rfl rfl ?_ ?_
  · intro other
    by_cases same : other = task
    · simp [schedulerEvict, same]
    · simp [schedulerEvict, same]
  · simp [schedulerEvict]

omit [NeZero cores] in
theorem switchIdle {lastTask : Option Word} (removes : Removes state next task) :
    Removes state (schedulerSwitchIdle core lastTask next) task := by
  simp only [schedulerSwitchIdle]
  split
  · exact ⟨removes.owned, removes.futex, removes.listed, removes.terminated⟩
  · exact ⟨removes.owned, removes.futex, removes.listed, removes.terminated⟩

theorem of_step {action : Action cores} (removal : removed state action = some task)
    (moved : step state action = some next) : Removes state next task := by
  unfold removed at removal
  split at removal
  · rename_i core argument
    simp only [step] at moved
    split at moved
    · obtain rfl := Option.some.inj moved
      rw [schedulerTerminate]
      simp only at removal
      split at removal
      · cases removal
      · rename_i allowed
        rw [Option.ite_none_right_eq_some] at removal
        obtain ⟨alive, same⟩ := removal
        obtain rfl := Option.some.inj same
        rw [if_neg allowed]
        exact terminateSvc alive
    · cases moved
  · rename_i core
    split at removal
    · rename_i lastTask position
      simp only [step, schedulerSwitch, position, schedulerSwitchPick, schedQueuePop] at moved
      split at removal
      · cases removal
      · rename_i found first
        rw [Option.ite_none_left_eq_some] at removal
        obtain ⟨smashed, same⟩ := removal
        obtain rfl := Option.some.inj same
        obtain rfl := Option.some.inj moved
        simp only [first, Option.map_some]
        have check : schedulerCheckStack ((schedQueueRemove found state).task found) =
            schedulerCheckStack (state.task found) := by
          simp [schedQueueRemove, State.setTask, schedulerCheckStack]
        rw [check, if_neg smashed]
        have gone : Removes (schedQueueRemove found state)
          (schedulerEvict found (schedQueueRemove found state)) found := evict
        exact switchIdle ⟨gone.owned, gone.futex, gone.listed, gone.terminated⟩
    · cases removal
  · cases removal

end Removes

/-- After the removal of a task nothing refers to it, exactly if no contended futex was in its list
before. -/
theorem forgets_of_removed {state next : State Links cores} {action : Action cores} {task : Word}
    (reached : (scheduler cores).Reachable state)
    (moved : (scheduler cores).step state action = some next)
    (removal : removed state action = some task) : next.Forgets task ↔ state.OwnsNone task := by
  obtain ⟨follows, abstractly⟩ := (scheduler_simulation cores).reachable reached
  have follow := ((scheduler_simulation cores).step _ _ _ follows abstractly moved).2
  have plainly : removed state.plain action = some task := removal
  have removes := Removes.of_step plainly follow
  exact ((wellPlaced_of_reachable (reached.step moved)).forgets removes.terminated).trans
    removes.ownsNone

def contendedOwner : List (Action 1) :=
  [Action.create 0 0x1000 { flags := schedulerPrimordialTask, priority := 32 },
    .create 0 0x2000 { priority := 31 }, .start 0, .store 0x104 0x1000,
    .futexInit 0x100 0x104 (schedulerFutexContentionTracking ||| schedulerFutexPi |||
      schedulerFutexOwnerTracking)] ++ switchPass ++
    [Action.futexWait 0 0x100 0x1000 schedulerWaitForever] ++ switchPass

theorem forgets_of_removed_waiter :
    ∃ state next, (scheduler 1).Reachable state ∧
      (scheduler 1).step state (.terminate 0 0x2000) = some next ∧
      (next.Forgets 0x2000 ↔ state.OwnsNone 0x2000) := by
  obtain ⟨state, reached, removal, performed⟩ := System.exists_of_run (fun _ _ => True)
    (initial_bootState 1) contendedOwner
    (fun state => removed state (.terminate 0 0x2000) = some 0x2000 ∧
      (step state (.terminate 0 0x2000)).isSome) (by decide)
  obtain ⟨next, terminates⟩ := Option.isSome_iff_exists.mp performed
  have moved : (scheduler 1).step state (.terminate 0 0x2000) = some next := terminates
  exact ⟨state, next, reached, moved, forgets_of_removed reached moved removal⟩

theorem owner_terminates_linked :
    ∃ state next, (scheduler 1).Reachable state ∧
      (scheduler 1).step state (.terminate 0 0x1000) = some next ∧
      removed state (.terminate 0 0x1000) = some 0x1000 ∧ ¬next.Forgets 0x1000 := by
  obtain ⟨state, reached, removal, performed⟩ := System.exists_of_run (fun _ _ => True)
    (initial_bootState 1) contendedOwner
    (fun state => removed state (.terminate 0 0x1000) = some 0x1000 ∧
      (step state (.terminate 0 0x1000)).any fun next => (next.futex 0x100).marker ∧
        next.ownedFutexes.next (.head 0x1000) = .node 0x100) (by decide)
  obtain ⟨next, moved, left⟩ := (Option.any_eq_true _ _).mp performed
  obtain ⟨inUse, linked⟩ := of_decide_eq_true left
  refine ⟨state, next, reached, moved, removal, fun forgets => ?_⟩
  exact (forgets.owned (.node 0x100) inUse).2 (Relation.ReflTransGen.single linked)

end PicoToolkit
