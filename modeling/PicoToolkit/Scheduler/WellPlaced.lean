import PicoToolkit.Scheduler.Simulation

/-!
The placement of tasks on the rings of the C code: the state of a task tells which ring holds it.
-/

namespace PicoToolkit

open Ring Transition

variable {cores : Nat}

structure WellPlaced (state : State Links cores) : Prop where
  ready : ∀ task, (state.task task).state = .ready ↔ (state.queue .readyQueue).count task = 1
  blocked : ∀ task, (state.task task).state = .blocked ↔
    ∃! futex, (state.queue (.waiters futex)).count task = 1
  running : ∀ task, (state.task task).state = .running ↔
    (∃! core, state.currentTask core = some task) ∧ ∀ queue, task ∉ state.queue queue
  unqueued : ∀ task,
    (state.task task).state = .suspended ∨ (state.task task).state = .terminated →
      ∀ queue, task ∉ state.queue queue
  currentQueue : ∀ task queue,
    (state.task task).currentQueue = some queue ↔ task ∈ state.queue queue
  terminated : ∀ task, (state.task task).state = .terminated →
    task ∉ state.taskList ∧ task ∉ state.timerList
  queues : state.queues.Represents state.queue
  timers : state.timers.Represents fun _ => state.timerList
  tasks : state.tasks.Represents fun _ => state.taskList

/-- In every reachable state the task states agree with the rings. -/
theorem wellPlaced_of_reachable [NeZero cores] {state : State Links cores}
    (reached : (scheduler cores).Reachable state) : WellPlaced state := by
  obtain ⟨follows, abstractly⟩ := (scheduler_simulation cores).reachable reached
  have placed := placed_of_reachable abstractly
  have queued : ∀ task queue,
      task ∈ state.queue queue ↔ (state.task task).currentQueue = some queue :=
    fun task => (placed task).queued
  have once : ∀ task queue, (state.queue queue).count task = 1 ↔
      (state.task task).currentQueue = some queue := by
    intro task queue
    rw [← queued]
    refine ⟨fun counted => List.count_pos_iff.mp (by omega), ?_⟩
    exact List.count_eq_one_of_mem (follows.queues.nodup queue)
  refine ⟨?_, ?_, ?_, ?_, ?_, ?_, follows.queues, follows.timers, follows.tasks⟩
  · intro task
    exact (placed task).ready.trans (once task .readyQueue).symm
  · intro task
    refine (placed task).blocked.trans ⟨?_, ?_⟩
    · rintro ⟨futex, current⟩
      refine ⟨futex, (once task _).mpr current, fun other counted => ?_⟩
      have both := current.symm.trans ((once task _).mp counted)
      injection both with both
      injection both with both
      exact both.symm
    · rintro ⟨futex, counted, _⟩
      exact ⟨futex, (once task _).mp counted⟩
  · intro task
    refine ⟨fun running => ?_, ?_⟩
    · obtain ⟨core, current⟩ := (placed task).running.mp running
      refine ⟨⟨core, current, fun other isOn => (placed task).oneCore other core isOn current⟩, ?_⟩
      have unqueued := (placed.running_free current).1
      intro queue held
      exact Option.some_ne_none queue (((queued task queue).mp held).symm.trans unqueued)
    · rintro ⟨⟨core, current, _⟩, _⟩
      exact (placed task).running.mpr ⟨core, current⟩
  · intro task idle queue held
    have unqueued : (state.task task).currentQueue = none := by
      refine (placed task).unqueued ?_ ?_
      · rcases idle with suspended | terminated
        · simp [State.whereabouts, State.plain, suspended]
        · simp [State.whereabouts, State.plain, terminated]
      · rcases idle with suspended | terminated
        · simp [State.whereabouts, State.plain, suspended]
        · simp [State.whereabouts, State.plain, terminated]
    exact Option.some_ne_none queue (((queued task queue).mp held).symm.trans unqueued)
  · exact fun task queue => (queued task queue).symm
  · intro task terminated
    refine ⟨fun listed => (placed task).listed.mp listed terminated, fun timed => ?_⟩
    exact (placed.terminated terminated).2.2.2.mp timed

theorem wellPlaced_of_reachable_blocked :
    ∃ state, (scheduler 1).Reachable state ∧ (state.task 0x2000).state = .blocked ∧
      0x2000 ∈ state.timerList ∧ WellPlaced state := by
  obtain ⟨state, reached, blocked, timed⟩ := System.exists_of_run (fun _ _ => True)
    (initial_bootState 1)
    (List.flatten [oneRunner, [.futexInit 0x100 0x104 0, .futexWait 0 0x100 0 5], switchPass])
    (fun state => (state.task 0x2000).state = .blocked ∧ 0x2000 ∈ state.timerList)
    (by decide)
  exact ⟨state, reached, blocked, timed, wellPlaced_of_reachable reached⟩

end PicoToolkit
