import PicoToolkit.Library.Stamped
import PicoToolkit.Scheduler.Simulation

/-!
The scheduler on lists that remember the insertions: the ready queue is in order of the priorities, and of
the insertions among equal ones, whatever is pushed, popped, removed or given another priority.
-/

namespace PicoToolkit

open Ring Transition

variable {cores : Nat}

def ReadyInOrder (state : State Stamped cores) : Prop :=
  state.queues.InOrder (fun task => (state.task task).currentPriority) .readyQueue

theorem ReadyInOrder.quiet {state next : State Stamped cores} (inOrder : ReadyInOrder state)
    (queues : next.queues = state.queues)
    (priorities : ∀ task, (next.task task).currentPriority = (state.task task).currentPriority) :
    ReadyInOrder next := by
  have same : (fun task => (next.task task).currentPriority) = fun task =>
      (state.task task).currentPriority := funext priorities
  rw [ReadyInOrder, queues, same]
  exact inOrder

theorem ReadyInOrder.setTask {state : State Stamped cores} (inOrder : ReadyInOrder state) {task : Word}
    (absent : task ∉ state.queue .readyQueue) (change : Task → Task) :
    ReadyInOrder (state.setTask task change) := by
  refine Stamped.InOrder.congr inOrder rfl (Nat.le_refl _) fun other member => ⟨?_, rfl⟩
  rw [State.setTask]
  exact congrArg Task.currentPriority
    (Function.update_of_ne (ne_of_mem_of_not_mem member absent) _ _)

theorem ReadyInOrder.queueRemove {state next : State Stamped cores} (inOrder : ReadyInOrder state)
    {task : Word} (queues : next.queues = state.queues)
    (priorities : ∀ other, other ≠ task →
      (next.task other).currentPriority = (state.task other).currentPriority) :
    ReadyInOrder (schedQueueRemove task next) := by
  have removed := Stamped.InOrder.remove inOrder task
  rw [← queues] at removed
  refine removed.congr rfl (Nat.le_refl _) fun other member => ⟨?_, rfl⟩
  have different : other ≠ task := by simpa using (List.mem_filter.mp member).2
  rw [schedQueueRemove, State.setTask]
  simp only [Function.update_of_ne different]
  exact priorities other different

theorem ReadyInOrder.queuePush {state : State Stamped cores} (inOrder : ReadyInOrder state)
    {task : Word} (absent : task ∉ state.queue .readyQueue) (queue : QueueId) :
    ReadyInOrder (schedQueuePush queue task state) := by
  have inserted : ReadyInOrder { state with
      queues := Store.insert state.queues queue (lessUrgent queue task state) task } := by
    cases queue with
    | readyQueue => exact Stamped.InOrder.insert inOrder absent
    | waiters futex => exact Stamped.InOrder.insert_other inOrder (by simp) _ absent
  refine inserted.quiet rfl fun other => ?_
  show (Function.update state.task task _ other).currentPriority = _
  by_cases touched : other = task
  · subst other
    rw [Function.update_self]
  · rw [Function.update_of_ne touched]

section Reprioritize

variable {R : Type → Type → Type} [Store R] {state : State R cores} {task : Word}

def Task.withPriority (newPriority : Nat) (entry : Task) : Task :=
  { entry with currentPriority := newPriority }

theorem reprioritize_unqueued (newPriority : Nat) (unqueued : (state.task task).currentQueue = none) :
    schedQueueReprioritize task newPriority state =
      state.setTask task (Task.withPriority newPriority) := by
  have current : ((state.setTask task fun entry =>
      { entry with currentPriority := newPriority }).task task).currentQueue = none := by
    rw [State.setTask]
    simpa only [Function.update_self] using unqueued
  simp only [schedQueueReprioritize, current]
  rfl

theorem reprioritize_queued (newPriority : Nat) {queue : QueueId}
    (names : (state.task task).currentQueue = some queue) :
    schedQueueReprioritize task newPriority state =
      schedQueuePush queue task
        (schedQueueRemove task (state.setTask task (Task.withPriority newPriority))) := by
  have current : ((state.setTask task fun entry =>
      { entry with currentPriority := newPriority }).task task).currentQueue = some queue := by
    rw [State.setTask]
    simpa only [Function.update_self] using names
  simp only [schedQueueReprioritize, current]
  rfl

end Reprioritize

theorem ReadyInOrder.reprioritize {state : State Stamped cores} (inOrder : ReadyInOrder state)
    (queued : Queued state.lists) (task : Word) (newPriority : Nat) :
    ReadyInOrder (schedQueueReprioritize task newPriority state) := by
  cases names : (state.task task).currentQueue with
  | none =>
      rw [reprioritize_unqueued newPriority names]
      exact inOrder.setTask (queued.not_mem names .readyQueue) _
  | some queue =>
      rw [reprioritize_queued newPriority names]
      have removed : ReadyInOrder
          (schedQueueRemove task (state.setTask task (Task.withPriority newPriority))) :=
        inOrder.queueRemove rfl fun other different => by
          rw [State.setTask]
          simp only [Function.update_of_ne different]
      refine removed.queuePush (fun member => ?_) queue
      have differs := (List.mem_filter.mp member).2
      simp at differs

structure Remembers (state : State Stamped cores) (plain : Plain cores) : Prop where
  reads : state.lists = plain
  queued : Queued plain
  inOrder : ReadyInOrder state

namespace Remembers

variable {state : State Stamped cores} {plain : Plain cores}

theorem reprioritize (remembers : Remembers state plain) (task : Word) (newPriority : Nat) :
    Remembers (schedQueueReprioritize task newPriority state)
      (schedQueueReprioritize task newPriority plain) := by
  obtain ⟨rfl, queued, inOrder⟩ := remembers
  refine ⟨?_, queued.reprioritize task newPriority, inOrder.reprioritize queued task newPriority⟩
  cases names : (state.task task).currentQueue with
  | none =>
      have abstractly : (state.lists.task task).currentQueue = none := names
      rw [reprioritize_unqueued newPriority names, reprioritize_unqueued newPriority abstractly]
      rfl
  | some queue =>
      have abstractly : (state.lists.task task).currentQueue = some queue := names
      rw [reprioritize_queued newPriority names, reprioritize_queued newPriority abstractly]
      rfl

theorem initTask (remembers : Remembers state plain) (placed : Placed plain) {task : Word}
    (fresh : (plain.task task).state = .terminated) (descriptor : TaskDescriptor) :
    Remembers (schedulerInitTask task descriptor state) (schedulerInitTask task descriptor plain) := by
  obtain ⟨rfl, queued, inOrder⟩ := remembers
  have unqueued := (placed.terminated fresh).1
  have absent := queued.not_mem unqueued .readyQueue
  have initialised : Queued (state.lists.setTask task fun _ => newTask descriptor) :=
    queued.setTask unqueued.symm
  exact ⟨rfl, initialised, inOrder.setTask absent fun _ => newTask descriptor⟩

theorem futexInit (remembers : Remembers state plain) {futex value flags : Word}
    (empty : plain.queue (.waiters futex) = []) :
    Remembers (schedulerFutexInit futex value flags state)
      (schedulerFutexInit futex value flags plain) := by
  obtain ⟨rfl, queued, inOrder⟩ := remembers
  refine ⟨rfl, queued.futexInit empty, ?_⟩
  have other : QueueId.readyQueue ≠ .waiters futex := by simp
  have same : (Store.initHead state.queues (.waiters futex) : Stamped QueueId Word).lists .readyQueue =
      state.queues.lists .readyQueue := Function.update_of_ne other [] _
  exact Stamped.InOrder.congr inOrder same (Nat.le_refl _) fun _ _ => ⟨rfl, rfl⟩

theorem leave (remembers : Remembers state plain) {next : State Stamped cores}
    (queues : next.queues = state.queues) (task : next.task = state.task) :
    Remembers next next.lists := by
  obtain ⟨rfl, queued, inOrder⟩ := remembers
  refine ⟨rfl, ?_, inOrder.quiet queues fun other => by rw [task]⟩
  intro other queue
  have here := queued other queue
  simp only [State.whereabouts, State.queue, State.lists] at here ⊢
  rw [queues, task]
  exact here

end Remembers

def stampedTracking (cores : Nat) : Tracking Stamped cores where
  Rel := Remembers
  reads remembers := remembers.reads
  queued remembers := remembers.queued
  quiet remembers queues _ _ priorities reads queued :=
    ⟨reads, queued, remembers.inOrder.quiet queues priorities⟩
  unlinkTimer task remembers := by
    obtain rfl := remembers.reads
    exact remembers.leave rfl rfl
  linkTimer remembers _ _ := by
    obtain rfl := remembers.reads
    exact remembers.leave rfl rfl
  listTask remembers _ := by
    obtain rfl := remembers.reads
    exact remembers.leave rfl rfl
  unlistTask task remembers := by
    obtain rfl := remembers.reads
    exact remembers.leave rfl rfl
  queueRemove task remembers := by
    obtain ⟨rfl, queued, inOrder⟩ := remembers
    exact ⟨rfl, queued.queueRemove task, inOrder.queueRemove rfl fun _ _ => rfl⟩
  queuePush task queue remembers unqueued := by
    obtain ⟨rfl, queued, inOrder⟩ := remembers
    exact ⟨rfl, queued.queuePush queue unqueued,
      inOrder.queuePush (queued.not_mem unqueued .readyQueue) queue⟩
  reprioritize task newPriority remembers := remembers.reprioritize task newPriority
  initTask descriptor remembers placed fresh := remembers.initTask placed fresh descriptor
  futexInit remembers empty := remembers.futexInit empty

/-- The state after `scheduler_init`, when nothing has been inserted yet. -/
def stampedInit (memory : Word → Word) (sliceDuration : Int) : State Stamped cores :=
  { schedulerInit Stamped.empty Stamped.empty Stamped.empty with
    memory := memory, sliceDuration := sliceDuration }

def stampedScheduler (cores : Nat) [NeZero cores] : System (State Stamped cores) (Action cores) where
  initial state := ∃ memory sliceDuration, state = stampedInit memory sliceDuration
  step := step

/-- The scheduler on the memory of the C code, and beside it the one that remembers the insertions. -/
def observedScheduler (cores : Nat) [NeZero cores] :
    System (State Links cores × State Stamped cores) (Action cores) :=
  (scheduler cores).beside (stampedScheduler cores) fun state stamped =>
    state.memory = stamped.memory ∧ state.sliceDuration = stamped.sliceDuration

section Observed

variable {state : State Links cores} {stamped : State Stamped cores}

theorem Remembers.queue (remembers : Remembers stamped state.plain) :
    stamped.queues.lists = state.queue := congrArg State.queues remembers.reads

theorem Remembers.task (remembers : Remembers stamped state.plain) : stamped.task = state.task :=
  congrArg State.task remembers.reads

theorem Remembers.first (remembers : Remembers stamped state.plain) {test : Word → Bool} {task : Word}
    (found : (state.queue .readyQueue).find? test = some task) {other : Word}
    (member : other ∈ state.queue .readyQueue) (meets : test other = true) (different : other ≠ task) :
    (state.task task).currentPriority < (state.task other).currentPriority ∨
      (state.task task).currentPriority = (state.task other).currentPriority ∧
        stamped.queues.stamp task < stamped.queues.stamp other := by
  have inOrder := remembers.inOrder
  rw [ReadyInOrder, remembers.task] at inOrder
  rw [← remembers.queue] at found member
  exact inOrder.before_of_find found member meets different

variable [NeZero cores]

theorem Remembers.initial (begins : (scheduler cores).initial state) :
    Remembers (stampedInit state.memory state.sliceDuration) state.plain := by
  obtain ⟨follows, memory, sliceDuration, plain⟩ := (scheduler_simulation cores).initial state begins
  have sameMemory : state.memory = memory := congrArg State.memory plain
  have sameSlice : state.sliceDuration = sliceDuration := congrArg State.sliceDuration plain
  refine ⟨?_, follows.queued, .nil, fun x member => (List.not_mem_nil member).elim⟩
  rw [plain, sameMemory, sameSlice]
  rfl

theorem Remembers.step {plain : Plain cores} (remembers : Remembers stamped plain)
    (placed : Placed plain) (action : Action cores) :
    Option.Rel Remembers (PicoToolkit.step stamped action) (PicoToolkit.step plain action) := by
  have tracks : Tracks (stampedTracking cores) stamped plain := remembers
  exact tracks.step placed action

theorem Remembers.follow {next : State Links cores} {action : Action cores}
    (remembers : Remembers stamped state.plain) (reached : (scheduler cores).Reachable state)
    (moved : PicoToolkit.step state action = some next) :
    ∃ stampedNext, PicoToolkit.step stamped action = some stampedNext ∧
      Remembers stampedNext next.plain := by
  obtain ⟨follows, abstractly⟩ := (scheduler_simulation cores).reachable reached
  have plainly : PicoToolkit.step state.plain action = some next.plain :=
    ((scheduler_simulation cores).step state action next follows abstractly moved).2
  have related := remembers.step (placed_of_reachable abstractly) action
  rw [plainly] at related
  generalize PicoToolkit.step stamped action = after at related ⊢
  cases related with
  | some both => exact ⟨_, rfl, both⟩

theorem exists_observed (reached : (scheduler cores).Reachable state) :
    ∃ stamped, (observedScheduler cores).Reachable (state, stamped) ∧
      Remembers stamped state.plain := by
  refine @System.Reachable.exists_beside _ _ (scheduler cores) _ (stampedScheduler cores) _
    (fun state stamped => Remembers stamped state.plain) ?_ ?_ _ reached
  · exact fun state begins => ⟨_, ⟨_, _, rfl⟩, ⟨rfl, rfl⟩, .initial begins⟩
  · exact fun _ _ _ _ reached remembers moved => remembers.follow reached moved

theorem Remembers.of_observed (reached : (observedScheduler cores).Reachable (state, stamped)) :
    Remembers stamped state.plain := by
  have holds : (scheduler cores).Reachable state ∧ Remembers stamped state.plain := by
    refine reached.invariant (motive := fun pair =>
      (scheduler cores).Reachable pair.1 ∧ Remembers pair.2 pair.1.plain) ?_ ?_
    · rintro ⟨state, stamped⟩ ⟨begins, ⟨memory, sliceDuration, rfl⟩, sameMemory, sameSlice⟩
      refine ⟨.start begins, ?_⟩
      have partner := Remembers.initial begins
      rw [sameMemory, sameSlice] at partner
      exact partner
    · rintro ⟨state, stamped⟩ action ⟨next, stampedNext⟩ ⟨reached, remembers⟩ moved
      obtain ⟨first, second⟩ := System.beside_step moved
      refine ⟨reached.step first, ?_⟩
      obtain ⟨partner, partnerStep, later⟩ := remembers.follow reached first
      have same : stampedNext = partner := Option.some.inj (second.symm.trans partnerStep)
      rw [same]
      exact later
  exact holds.2

theorem first_le (reached : (scheduler cores).Reachable state) {test : Word → Bool} {task : Word}
    (found : (state.queue .readyQueue).find? test = some task) {other : Word}
    (member : other ∈ state.queue .readyQueue) (meets : test other = true) :
    (state.task task).currentPriority ≤ (state.task other).currentPriority := by
  obtain ⟨stamped, _, remembers⟩ := exists_observed reached
  by_cases same : other = task
  · rw [same]
  · rcases remembers.first found member meets same with less | ⟨equal, _⟩
    · exact Nat.le_of_lt less
    · exact Nat.le_of_eq equal

end Observed

end PicoToolkit
