import PicoToolkit.Scheduler.Placement

/-!
The service handlers keep every task where its fields say.
-/

namespace PicoToolkit

open Ring Tag Whereabouts

variable {cores : Nat} {state : Plain cores} {core : Fin cores}

theorem Placed.congr {next : Plain cores} (placed : Placed state)
    (same : ∀ task, next.whereabouts task = state.whereabouts task) : Placed next := by
  intro task
  rw [same]
  exact placed task

theorem Placed.returnResult (placed : Placed state) (result : Result) :
    Placed (returnResult core result state) :=
  placed.congr fun _ => whereabouts_returnResult core result

theorem Placed.requestSwitch (placed : Placed state) :
    Placed (schedulerRequestSwitch core state) :=
  placed.congr fun _ => whereabouts_requestSwitch core

theorem Placed.reprioritize (placed : Placed state) (task : Word) (newPriority : Nat) :
    Placed (schedQueueReprioritize task newPriority state) :=
  placed.congr fun _ => whereabouts_reprioritize (placed task).queued newPriority

/-- The end of a wait or of a sleep: no timer and no waiter queue holds the task any more, and it
is ready. -/
theorem Placed.wakeTask (placed : Placed state) {task : Word} {next : Plain cores}
    (waits : (state.task task).state = .blocked ∨ (state.task task).state = .suspended)
    (others : ∀ other, other ≠ task → next.whereabouts other = state.whereabouts other)
    (becomes : next.whereabouts task =
      { state.whereabouts task with
        state := .ready
        currentQueue := some .readyQueue
        inQueue := fun queue => queue = .readyQueue
        timed := False }) : Placed next := by
  intro other
  by_cases same : other = task
  · subst other
    have idle : (state.whereabouts task).state ≠ .running := by
      rcases waits with blocked | suspended
      · simp [State.whereabouts, blocked]
      · simp [State.whereabouts, suspended]
    have live : (state.whereabouts task).state ≠ .terminated := by
      rcases waits with blocked | suspended
      · simp [State.whereabouts, blocked]
      · simp [State.whereabouts, suspended]
    rw [becomes]
    exact consistent_ready rfl rfl (fun _ => Iff.rfl) ((placed task).offCore idle)
      ((placed task).isListed live) id
  · rw [others other same]
    exact placed other

theorem Placed.resume (placed : Placed state) (task : Word) :
    Placed (schedulerResumeSvc core task state) := by
  rw [schedulerResumeSvc]
  split
  · refine Placed.requestSwitch ?_
    split
    · rename_i waits
      refine Placed.returnResult ?_ _
      split
      · exact placed.wakeTask waits (fun _ different => by simp [different]) (by simp)
      · exact placed.wakeTask waits (fun _ different => by simp [different]) (by simp)
    · exact placed.returnResult _
  · exact placed.returnResult _

theorem Placed.running (placed : Placed state) {current : Word}
    (runs : state.currentTask core = some current) : (state.task current).state = .running :=
  (placed current).running.mpr ⟨core, runs⟩

theorem Placed.elsewhere (placed : Placed state) {current : Word}
    (runs : state.currentTask core = some current) {other : Fin cores} (different : other ≠ core) :
    ¬(state.whereabouts current).onCore other := fun onCore =>
  different ((placed current).oneCore other core onCore runs)

theorem whereabouts_vacate {task : Word} (offCore : ¬(state.whereabouts task).onCore core) :
    (schedSetCurrent core none state).whereabouts task = state.whereabouts task := by
  rw [whereabouts_setCurrent, replace_same (state.whereabouts task).onCore]
  simp [offCore]

theorem State.offCore {current other : Word}
    (runs : state.currentTask core = some current) (different : other ≠ current) :
    ¬(state.whereabouts other).onCore core := fun onCore =>
  different (Option.some_inj.mp (onCore.symm.trans runs))

theorem Placed.leave (placed : Placed state) {current : Word}
    (runs : state.currentTask core = some current) (new : TaskState) (queue : Option QueueId)
    (timed : Prop) {next : Plain cores}
    (becomes : next.whereabouts current =
      { state.whereabouts current with
        state := new
        currentQueue := queue
        inQueue := fun queue' => some queue' = queue
        onCore := fun other =>
          if other = core then none = some current else (state.whereabouts current).onCore other
        timed := timed })
    (fits : (new = .ready ∧ queue = some .readyQueue ∧ ¬timed) ∨
      (new = .blocked ∧ ∃ futex, queue = some (.waiters futex)) ∨
      (new = .suspended ∧ queue = none)) :
    (next.whereabouts current).Consistent := by
  have running : (state.whereabouts current).state = .running := placed.running runs
  have listed : (state.whereabouts current).listed :=
    (placed current).isListed (by simp [running])
  have offCore : ∀ other, ¬(if other = core then none = some current
      else (state.whereabouts current).onCore other) := by
    intro other
    split
    · simp
    · rename_i different
      exact placed.elsewhere runs different
  rw [becomes]
  rcases fits with ⟨rfl, rfl, untimed⟩ | ⟨rfl, futex, rfl⟩ | ⟨rfl, rfl⟩
  · exact consistent_ready rfl rfl (by simp) offCore listed untimed
  · exact consistent_blocked rfl rfl (by simp) offCore listed
  · exact consistent_suspended rfl rfl (by simp) offCore listed

theorem Placed.running_free (placed : Placed state) {current : Word}
    (runs : state.currentTask core = some current) :
    (state.whereabouts current).currentQueue = none ∧
      (state.whereabouts current).inQueue = (fun _ => False) ∧
      (state.whereabouts current).timed = False := by
  have running : (state.whereabouts current).state = .running := placed.running runs
  have unqueued := (placed current).unqueued (by simp [running]) (by simp [running])
  refine ⟨unqueued, ?_, ?_⟩
  · funext queue
    exact eq_false ((placed current).inNoQueue unqueued queue)
  · exact eq_false ((placed current).untimed (by simp [running]) (by simp [running]))

theorem whereabouts_suspendTask {current task other : Word} (different : task ≠ current) :
    (schedulerSuspendTask current task state).whereabouts other =
      if other = current then
        { state.whereabouts current with
          state := .ready
          currentQueue := some .readyQueue
          inQueue := fun queue =>
            queue = .readyQueue ∨ (state.whereabouts current).inQueue queue }
      else if other = task then
        { state.whereabouts task with
          state := .suspended
          currentQueue := none
          inQueue := fun _ => False
          timed := False }
      else state.whereabouts other := by
  rw [schedulerSuspendTask, if_pos different]
  by_cases isCurrent : other = current
  · subst other
    simp [Ne.symm different]
  · by_cases isTask : other = task
    · subst other
      simp [different]
    · simp [isCurrent, isTask]

theorem Placed.suspend [NeZero cores] (placed : Placed state) {task ticks : Word}
    {next : Plain cores}
    (single : state.currentTask core = some task ∨ ∀ other : Fin cores, other = core)
    (done : schedulerSuspendSvc core task ticks state = some next) : Placed next := by
  rw [schedulerSuspendSvc] at done
  cases runs : schedGetCurrent core state with
  | none => simp [runs] at done
  | some current =>
      simp only [runs] at done
      split at done
      · rename_i alive
        obtain rfl := Option.some_inj.mp done
        obtain ⟨unqueued, inNoQueue, untimed⟩ := placed.running_free runs
        refine Placed.requestSwitch ?_
        intro other
        by_cases same : task = current
        · subst task
          by_cases isCurrent : other = current
          · subst other
            refine placed.leave runs .suspended none (ticks < schedulerWaitForever) ?_ (by simp)
            simp [schedulerSuspendTask, inNoQueue, unqueued, untimed]
          · rw [whereabouts_vacate (by simpa [schedulerSuspendTask, isCurrent] using State.offCore runs isCurrent)]
            simpa [schedulerSuspendTask, isCurrent] using placed other
        · have otherCores : ∀ other, ¬(state.whereabouts task).onCore other := by
            intro other onCore
            rcases single with isCurrent | alone
            · exact same (Option.some_inj.mp (isCurrent.symm.trans runs))
            · rw [alone other] at onCore
              exact State.offCore runs same onCore
          by_cases isCurrent : other = current
          · subst other
            refine placed.leave runs .ready (some .readyQueue) False ?_ (by simp)
            simp [whereabouts_suspendTask, same, Ne.symm same, inNoQueue, untimed]
          · rw [whereabouts_vacate]
            · by_cases isTask : other = task
              · subst other
                have listed : (state.whereabouts task).listed := by
                  simp only [schedulerTaskAlive, decide_eq_true_eq] at alive
                  exact alive
                refine consistent_suspended ?_ ?_ ?_ ?_ ?_
                · simp [whereabouts_suspendTask, same]
                · simp [whereabouts_suspendTask, same]
                · simp [whereabouts_suspendTask, same]
                · simpa [whereabouts_suspendTask, same] using otherCores
                · simpa [whereabouts_suspendTask, same] using listed
              · simpa [whereabouts_suspendTask, same, isCurrent, isTask] using placed other
            · by_cases isTask : other = task
              · subst other
                simpa [whereabouts_suspendTask, same] using otherCores core
              · simpa [whereabouts_suspendTask, same, isCurrent, isTask] using
                  State.offCore runs isCurrent
      · obtain rfl := Option.some_inj.mp done
        exact placed.congr fun _ => whereabouts_setResult _

@[simp]
theorem whereabouts_linkOwned {futex owner other : Word} :
    (schedulerLinkOwned futex owner state).whereabouts other = state.whereabouts other := by
  rw [schedulerLinkOwned]
  split
  · rfl
  · rfl

theorem whereabouts_boostOwner {futex owner other : Word}
    (queued : ∀ queue, (state.whereabouts owner).inQueue queue ↔
      (state.whereabouts owner).currentQueue = some queue) :
    (schedulerBoostOwner futex owner state).whereabouts other = state.whereabouts other := by
  simp only [schedulerBoostOwner]
  split
  · rw [whereabouts_reprioritize (by simpa using queued), whereabouts_linkOwned]
  · exact whereabouts_linkOwned

@[simp]
theorem whereabouts_enqueueWaiter [NeZero cores] {current futex value ticks other : Word} :
    (schedulerEnqueueWaiter current futex value ticks state).whereabouts other =
      if other = current then
        { state.whereabouts current with
          state := .blocked
          currentQueue := some (.waiters futex)
          inQueue := fun queue =>
            queue = .waiters futex ∨ (state.whereabouts current).inQueue queue
          timed := ticks < schedulerWaitForever ∨ (state.whereabouts current).timed }
      else state.whereabouts other := by
  by_cases isCurrent : other = current
  · subst other
    simp [schedulerEnqueueWaiter]
  · simp [schedulerEnqueueWaiter, isCurrent]

/-- Also when the caller of a wait has been queued, every task is in the queue its field names. -/
theorem Placed.queued_enqueueWaiter [NeZero cores] (placed : Placed state)
    {current futex value ticks : Word} (runs : state.currentTask core = some current)
    (result : Result) (owner : Word) (queue : QueueId) :
    ((schedulerEnqueueWaiter current futex value ticks
        (setResult current result state)).whereabouts owner).inQueue queue ↔
      ((schedulerEnqueueWaiter current futex value ticks
        (setResult current result state)).whereabouts owner).currentQueue = some queue := by
  by_cases isCurrent : owner = current
  · simpa [isCurrent, (placed.running_free runs).2.1] using eq_comm
  · simpa [isCurrent] using (placed owner).queued queue

theorem Placed.wait [NeZero cores] (placed : Placed state) {futex expected ticks : Word}
    {next : Plain cores} (done : schedulerWaitSvc core futex expected ticks state = some next) :
    Placed next := by
  rw [schedulerWaitSvc] at done
  cases runs : schedGetCurrent core state with
  | none => simp [runs] at done
  | some current =>
      simp only [runs] at done
      split at done
      · obtain ⟨after, served, rfl⟩ := Option.map_eq_some_iff.mp done
        obtain ⟨unqueued, inNoQueue, untimed⟩ := placed.running_free runs
        refine Placed.requestSwitch ?_
        intro other
        split at served
        · have blocked : ∀ other, after.whereabouts other =
              (schedulerEnqueueWaiter current futex (waitValue (state.futex futex) expected) ticks
                (setResult current (.value 0) state)).whereabouts other := by
            intro other
            simp only [schedulerBlock] at served
            split at served
            · split at served
              · obtain rfl := Option.some_inj.mp served
                exact whereabouts_boostOwner (placed.queued_enqueueWaiter runs (.value 0) _)
              · cases served
            · obtain rfl := Option.some_inj.mp served
              rfl
          by_cases isCurrent : other = current
          · subst other
            refine placed.leave runs .blocked (some (.waiters futex))
              (ticks < schedulerWaitForever) ?_ (by simp)
            simp [blocked, inNoQueue, untimed]
          · rw [whereabouts_vacate (by simpa [blocked, isCurrent] using State.offCore runs isCurrent)]
            simpa [blocked, isCurrent] using placed other
        · obtain rfl := Option.some_inj.mp served
          by_cases isCurrent : other = current
          · subst other
            refine placed.leave runs .ready (some .readyQueue) False ?_ (by simp)
            simp [inNoQueue, untimed]
          · rw [whereabouts_vacate (by simpa [isCurrent] using State.offCore runs isCurrent)]
            simpa [isCurrent] using placed other
      · cases done

@[simp]
theorem whereabouts_trackOwner {futex task other : Word} :
    (schedulerTrackOwner futex task state).whereabouts other = state.whereabouts other := by
  simp only [schedulerTrackOwner]
  split
  · rfl
  · rfl

theorem whereabouts_adopt {futex task other : Word}
    (queued : ∀ queue, (state.whereabouts task).inQueue queue ↔
      (state.whereabouts task).currentQueue = some queue) :
    (schedulerAdopt futex task state).whereabouts other = state.whereabouts other := by
  simp only [schedulerAdopt]
  split
  · rw [whereabouts_reprioritize (by simpa using queued), whereabouts_setOwned]
  · rfl

theorem Placed.wakeWaiter (placed : Placed state) {futex task : Word}
    (waits : task ∈ state.queue (.waiters futex)) :
    Placed (schedulerWakeWaiter futex task (schedQueueRemove task state)) := by
  have blocked : (state.task task).state = .blocked :=
    (placed task).blocked.mpr ⟨futex, ((placed task).queued _).mp waits⟩
  have adopted : ∀ other, (schedulerAdopt futex task (schedulerTrackOwner futex task
      (schedQueueRemove task state))).whereabouts other =
      (schedQueueRemove task state).whereabouts other := by
    intro other
    rw [whereabouts_adopt (by simp), whereabouts_trackOwner]
  refine placed.wakeTask (Or.inl blocked) ?_ ?_
  · intro other different
    simp [schedulerWakeWaiter, adopted, different]
  · simp [schedulerWakeWaiter, adopted]

theorem wakeWaiters_keeps {futex : Word} {motive : Plain cores → Prop}
    (wakes : ∀ state task, task ∈ state.queue (.waiters futex) → motive state →
      motive (schedulerWakeWaiter futex task (schedQueueRemove task state)))
    (all : Bool) (fuel woken : Nat) (holds : motive state) :
    motive (schedulerWakeWaiters futex all fuel woken state).1 := by
  induction fuel generalizing woken state with
  | zero => exact holds
  | succ fuel ih =>
      rw [schedulerWakeWaiters]
      split
      · exact holds
      · rename_i task popped found
        obtain ⟨first, isFirst, same⟩ := Option.map_eq_some_iff.mp found
        obtain ⟨rfl, rfl⟩ := Prod.mk.injEq .. ▸ same
        have woke := wakes state first (List.mem_of_mem_head? isFirst) holds
        simp only
        split
        · exact woke
        · exact ih _ woke

/-- A wake takes the futex from its owner, wakes waiters and writes the word: what these parts keep,
the wake keeps. -/
theorem wakeFutex_keeps {futex : Word} {all : Bool} {woken : Nat} {next : Plain cores}
    {motive : Plain cores → Prop}
    (restores : ∀ owner newPriority, motive (schedQueueReprioritize owner newPriority
      (state.setOwned fun links => schedListRemove links (.node futex))))
    (wakes : ∀ state task, task ∈ state.queue (.waiters futex) → motive state →
      motive (schedulerWakeWaiter futex task (schedQueueRemove task state)))
    (writes : ∀ state address value, motive state → motive (state.setMemory address value))
    (holds : motive state) (done : schedulerWakeFutex futex all state = some (next, woken)) :
    motive next := by
  simp only [schedulerWakeFutex] at done
  obtain ⟨restored, first, same⟩ := Option.map_eq_some_iff.mp done
  obtain ⟨rfl, _⟩ := Prod.mk.inj same
  have begins : motive restored := by
    rw [schedulerRestore] at first
    split at first
    · simp only [schedulerRestoreOwner] at first
      split at first
      · obtain ⟨owned, _, rfl⟩ := Option.map_eq_some_iff.mp first
        exact restores _ _
      · cases first
    · obtain rfl := Option.some_inj.mp first
      exact holds
  have woke := wakeWaiters_keeps wakes all (restored.queue (.waiters futex)).length 0 begins
  simp only [schedulerTrackContention]
  split
  · split
    · exact writes _ _ _ woke
    · exact writes _ _ _ woke
  · exact woke

theorem Placed.wakeFutex (placed : Placed state) {futex : Word} {all : Bool} {woken : Nat}
    {next : Plain cores} (done : schedulerWakeFutex futex all state = some (next, woken)) :
    Placed next := by
  refine wakeFutex_keeps (fun owner newPriority => ?_) (fun _ _ waits placed => placed.wakeWaiter waits)
    (fun _ _ _ placed => placed.congr fun _ => rfl) placed done
  exact (placed.congr fun _ => whereabouts_setOwned _).reprioritize owner newPriority

theorem Placed.wake (placed : Placed state) {futex : Word} {all : Bool} {next : Plain cores}
    (done : schedulerWakeSvc core futex all state = some next) : Placed next := by
  rw [schedulerWakeSvc] at done
  split at done
  · obtain ⟨⟨after, woken⟩, served, rfl⟩ := Option.map_eq_some_iff.mp done
    have stillPlaced := placed.wakeFutex served
    simp only
    split
    · exact (stillPlaced.returnResult _).requestSwitch
    · exact stillPlaced.returnResult _
  · cases done

theorem Placed.terminate (placed : Placed state) {task : Word}
    (single : state.currentTask core = some task ∨ ∀ other : Fin cores, other = core) :
    Placed (schedulerTerminateSvc core task state) := by
  simp only [schedulerTerminateSvc]
  split
  · split
    · rename_i isCurrent
      refine Placed.requestSwitch fun other => ?_
      by_cases same : other = task
      · subst other
        refine consistent_terminated ?_ ?_ ?_ ?_ ?_ ?_
        · simp
        · simp
        · simp
        · intro other
          by_cases onCore : other = core
          · simp [onCore]
          · simpa [onCore] using placed.elsewhere isCurrent onCore
        · simp
        · simp
      · rw [whereabouts_vacate (by simpa [same] using State.offCore isCurrent same)]
        simpa [same] using placed other
    · rename_i notCurrent
      intro other
      by_cases same : other = task
      · subst other
        refine consistent_terminated ?_ ?_ ?_ ?_ ?_ ?_
        · simp
        · simp
        · simp
        · intro other onCore
          rcases single with isCurrent | alone
          · exact notCurrent isCurrent
          · rw [alone other] at onCore
            have isOn : (state.whereabouts task).onCore core := by simpa using onCore
            exact notCurrent isOn
        · simp
        · simp
      · simpa [same] using placed other
  · exact placed.returnResult _

theorem Placed.priority (placed : Placed state) (task : Word) (priority : Nat) :
    Placed (schedulerPrioritySvc core task priority state) := by
  simp only [schedulerPrioritySvc]
  split
  · refine Placed.requestSwitch (Placed.reprioritize ?_ task priority)
    exact (placed.returnResult _).congr fun _ => whereabouts_setTask_same _ rfl rfl
  · exact placed.returnResult _

theorem Placed.terminated (placed : Placed state) {task : Word}
    (terminated : (state.task task).state = .terminated) :
    (state.whereabouts task).currentQueue = none ∧
      (state.whereabouts task).inQueue = (fun _ => False) ∧
      (∀ core, ¬(state.whereabouts task).onCore core) ∧
      (state.whereabouts task).timed = False := by
  have isTerminated : (state.whereabouts task).state = .terminated := terminated
  have unqueued := (placed task).unqueued (by simp [isTerminated]) (by simp [isTerminated])
  refine ⟨unqueued, ?_, (placed task).offCore (by simp [isTerminated]), ?_⟩
  · funext queue
    exact eq_false ((placed task).inNoQueue unqueued queue)
  · exact eq_false ((placed task).untimed (by simp [isTerminated]) (by simp [isTerminated]))

theorem Placed.createSvc (placed : Placed state) {task : Word}
    (fresh : (state.task task).state = .terminated) :
    Placed (schedulerCreateSvc core task state) := by
  obtain ⟨unqueued, inNoQueue, offCore, untimed⟩ := placed.terminated fresh
  simp only [schedulerCreateSvc]
  refine Placed.returnResult ?_ _
  split
  · intro other
    by_cases same : other = task
    · subst other
      refine consistent_suspended ?_ ?_ ?_ ?_ ?_
      · simp
      · simp [unqueued]
      · simp [inNoQueue]
      · simpa using offCore
      · simp
    · simpa [same] using placed other
  · have ready : Placed (schedQueuePush .readyQueue task
        (setTaskState task .ready (state.listTask task))) := by
      intro other
      by_cases same : other = task
      · subst other
        refine consistent_ready ?_ ?_ ?_ ?_ ?_ ?_
        · simp
        · simp
        · simp [inNoQueue]
        · simpa using offCore
        · simp
        · simp [untimed]
      · simpa [same] using placed other
    split
    · exact ready
    · split
      · exact ready.requestSwitch
      · exact ready

end PicoToolkit
