import PicoToolkit.Scheduler.PlacedSwitch

/-!
The scheduler on the rings of the C code does what the scheduler on plain lists does.  A state of the
first maps to one of the second by reading its rings; every function follows its abstract counterpart
and leaves the rings well formed.
-/

namespace PicoToolkit

open Ring Transition Tag

variable {cores : Nat}

def State.plain (state : State Links cores) : Plain cores :=
  { state with
    queues := schedListEntries state.queues
    timers := schedListEntries state.timers
    tasks := schedListEntries state.tasks }

def Queued (state : Plain cores) : Prop :=
  ∀ task queue, (state.whereabouts task).inQueue queue ↔
    (state.whereabouts task).currentQueue = some queue

structure Follows (state : State Links cores) (plain : Plain cores) : Prop where
  queues : state.queues.Represents plain.queues
  timers : state.timers.Represents plain.timers
  tasks : state.tasks.Represents plain.tasks
  reads : state.plain = plain
  queued : Queued plain

theorem entries_eq {H : Type} {links : Links H Word} {lists : H → List Word}
    (represents : links.Represents lists) : schedListEntries links = lists :=
  funext (schedListEntries_eq represents)

theorem represents_remove {H : Type} [DecidableEq H] {links : Links H Word} {lists : Family H Word}
    (represents : links.Represents lists) (element : Word) :
    Links.Represents (Store.remove links element) (Store.remove lists element : Family H Word) := by
  have unlinked := represents.unlink element
  rw [← schedListRemove_eq represents] at unlinked
  exact unlinked

theorem represents_insert {H : Type} [DecidableEq H] {links : Links H Word} {lists : Family H Word}
    (represents : links.Represents lists) (list : H) (entry : Option Word) {element : Word}
    (held : ∀ x ∈ entry, x ∈ lists list) (unlisted : ∀ other, element ∉ lists other) :
    Links.Represents (Store.insert links list entry element)
      (Store.insert lists list entry element : Family H Word) := by
  have loose := represents.loose element unlisted
  cases entry with
  | none =>
      have linked : (links.linkBefore (.head list) (.node element)).Represents
          (Store.insert lists list none element : Family H Word) :=
        represents.insertEntry held unlisted
      rw [← schedListPush_eq represents loose (by simp)] at linked
      exact linked
  | some other =>
      have linked : (links.linkBefore (.node other) (.node element)).Represents
          (Store.insert lists list (some other) element : Family H Word) :=
        represents.insertEntry held unlisted
      have different : Node.node other ≠ (Node.node element : Node H Word) := by
        intro same
        injection same with same
        exact unlisted list (same ▸ held other rfl)
      rw [← schedListInsertBefore_eq represents loose different] at linked
      exact linked

namespace Queued

variable {plain : Plain cores}

theorem setTask (queued : Queued plain) {task : Word} {change : Task → Task}
    (same : (change (plain.task task)).currentQueue = (plain.task task).currentQueue) :
    Queued (plain.setTask task change) := by
  intro other queue
  rw [whereabouts_setTask change rfl same]
  split
  · exact queued task queue
  · exact queued other queue

theorem queueRemove (queued : Queued plain) (task : Word) : Queued (schedQueueRemove task plain) := by
  intro other queue
  rw [whereabouts_queueRemove]
  split
  · simp
  · exact queued other queue

theorem not_mem (queued : Queued plain) {task : Word}
    (unqueued : (plain.whereabouts task).currentQueue = none) (queue : QueueId) :
    task ∉ plain.queues queue := by
  intro held
  have names := (queued task queue).mp held
  rw [unqueued] at names
  cases names

theorem queuePush (queued : Queued plain) {task : Word} (queue : QueueId)
    (unqueued : (plain.whereabouts task).currentQueue = none) :
    Queued (schedQueuePush queue task plain) := by
  intro other queue'
  rw [whereabouts_queuePush]
  split
  · simp [show (State.whereabouts _ task).inQueue queue' ↔ False from
      iff_false_intro (queued.not_mem unqueued queue'), eq_comm]
  · exact queued other queue'

theorem reprioritize (queued : Queued plain) (task : Word) (newPriority : Nat) :
    Queued (schedQueueReprioritize task newPriority plain) := by
  rw [schedQueueReprioritize]
  split
  · exact queued.setTask rfl
  · refine Queued.queuePush (Queued.queueRemove (queued.setTask ?_) task) _ (by simp)
    rfl

theorem futexInit (queued : Queued plain) {futex value flags : Word}
    (empty : plain.queue (.waiters futex) = []) :
    Queued (schedulerFutexInit futex value flags plain) := by
  have same : Store.initHead plain.queues (.waiters futex) = plain.queues :=
    Function.update_eq_self_iff.mpr empty.symm
  intro task queue
  simp only [schedulerFutexInit, same]
  exact queued task queue

end Queued

section Primitives

variable {state : State Links cores} {plain : Plain cores}

namespace Follows

theorem task (follows : Follows state plain) : plain.task = state.task := by
  rw [← follows.reads]
  rfl

theorem quiet (follows : Follows state plain) {next : State Links cores} {nextPlain : Plain cores}
    (queues : next.queues = state.queues) (timers : next.timers = state.timers)
    (tasks : next.tasks = state.tasks) (reads : next.plain = nextPlain)
    (queued : Queued nextPlain) : Follows next nextPlain where
  queues := by
    rw [queues, show nextPlain.queues = plain.queues by
      rw [← reads, ← follows.reads, State.plain, State.plain, queues]]
    exact follows.queues
  timers := by
    rw [timers, show nextPlain.timers = plain.timers by
      rw [← reads, ← follows.reads, State.plain, State.plain, timers]]
    exact follows.timers
  tasks := by
    rw [tasks, show nextPlain.tasks = plain.tasks by
      rw [← reads, ← follows.reads, State.plain, State.plain, tasks]]
    exact follows.tasks
  reads := reads
  queued := queued

theorem setTask (follows : Follows state plain) (task : Word) (change : Task → Task)
    (same : (change (plain.task task)).currentQueue = (plain.task task).currentQueue) :
    Follows (state.setTask task change) (plain.setTask task change) := by
  exact follows.quiet rfl rfl rfl (by rw [← follows.reads]; rfl) (follows.queued.setTask same)

theorem unlinkTimer (follows : Follows state plain) (task : Word) :
    Follows (state.unlinkTimer task) (plain.unlinkTimer task) := by
  obtain rfl := follows.reads
  have timers := represents_remove follows.timers task
  refine ⟨follows.queues, timers, follows.tasks, ?_, follows.queued⟩
  simp only [State.plain, State.unlinkTimer, entries_eq timers]

theorem listTask (follows : Follows state plain) {task : Word} (unlisted : task ∉ plain.taskList) :
    Follows (state.listTask task) (plain.listTask task) := by
  obtain rfl := follows.reads
  have tasks := represents_insert follows.tasks () none (by simp) (fun _ => unlisted)
  refine ⟨follows.queues, follows.timers, tasks, ?_, follows.queued⟩
  simp only [State.plain, State.listTask, entries_eq tasks]

theorem unlistTask (follows : Follows state plain) (task : Word) :
    Follows (state.unlistTask task) (plain.unlistTask task) := by
  obtain rfl := follows.reads
  have tasks := represents_remove follows.tasks task
  refine ⟨follows.queues, follows.timers, tasks, ?_, follows.queued⟩
  simp only [State.plain, State.unlistTask, entries_eq tasks]

theorem queueRemove (follows : Follows state plain) (task : Word) :
    Follows (schedQueueRemove task state) (schedQueueRemove task plain) := by
  obtain rfl := follows.reads
  have queues := represents_remove follows.queues task
  refine ⟨queues, follows.timers, follows.tasks, ?_, follows.queued.queueRemove task⟩
  simp only [State.plain, schedQueueRemove, State.setTask]
  rw [entries_eq queues]
  rfl

theorem queuePush (follows : Follows state plain) (task : Word) (queue : QueueId)
    (unqueued : (plain.whereabouts task).currentQueue = none) :
    Follows (schedQueuePush queue task state) (schedQueuePush queue task plain) := by
  obtain rfl := follows.reads
  have queues := represents_insert follows.queues queue
    (lessUrgent queue task state)
    (fun _ => List.mem_of_find?_eq_some) (follows.queued.not_mem unqueued)
  refine ⟨queues, follows.timers, follows.tasks, ?_, follows.queued.queuePush queue unqueued⟩
  simp only [State.plain, schedQueuePush, State.setTask]
  rw [entries_eq queues]
  rfl

theorem linkTimer (follows : Follows state plain) {entry : Option Word} {task : Word}
    (held : ∀ x ∈ entry, x ∈ plain.timerList) (unlisted : task ∉ plain.timerList) :
    Follows (state.linkTimer entry task) (plain.linkTimer entry task) := by
  obtain rfl := follows.reads
  have timers := represents_insert follows.timers () entry held (fun _ => unlisted)
  refine ⟨follows.queues, timers, follows.tasks, ?_, follows.queued⟩
  simp only [State.plain, State.linkTimer, entries_eq timers]

theorem reprioritize (follows : Follows state plain) (task : Word) (newPriority : Nat) :
    Follows (schedQueueReprioritize task newPriority state)
      (schedQueueReprioritize task newPriority plain) := by
  have changed := follows.setTask task (fun entry =>
    { entry with currentPriority := newPriority }) rfl
  simp only [schedQueueReprioritize, changed.task]
  split
  · exact changed
  · exact (changed.queueRemove task).queuePush task _ (by simp)

theorem initTask (follows : Follows state plain) (placed : Placed plain) {task : Word}
    (fresh : (plain.task task).state = .terminated) (descriptor : TaskDescriptor) :
    Follows (schedulerInitTask task descriptor state) (schedulerInitTask task descriptor plain) := by
  obtain ⟨unqueued, inNoQueue, _, untimed⟩ := placed.terminated fresh
  have unlisted : task ∉ plain.taskList := by
    intro listed
    exact (placed task).listed.mp listed fresh
  have queues : schedListInit state.queues (.node task) = state.queues := by
    refine schedListInit_loose follows.queues (follows.queues.loose task fun queue held => ?_)
    exact (congrFun inNoQueue queue).mp held
  have timers : schedListInit state.timers (.node task) = state.timers :=
    schedListInit_loose follows.timers (follows.timers.loose task fun _ held => untimed.mp held)
  have tasks : schedListInit state.tasks (.node task) = state.tasks :=
    schedListInit_loose follows.tasks (follows.tasks.loose task fun _ => unlisted)
  have changed := follows.setTask task (fun _ => newTask descriptor) unqueued.symm
  refine changed.quiet queues timers tasks ?_ changed.queued
  rw [← follows.reads]
  simp only [schedulerInitTask, State.plain, Store.initNode, State.setTask, queues, timers, tasks]

theorem futexInit (follows : Follows state plain) {futex value flags : Word}
    (empty : plain.queue (.waiters futex) = []) :
    Follows (schedulerFutexInit futex value flags state)
      (schedulerFutexInit futex value flags plain) := by
  have ring : state.queues.next (.head (.waiters futex)) = .head (.waiters futex) := by
    have path := follows.queues.ring (.waiters futex)
    rw [show plain.queues (.waiters futex) = [] from empty] at path
    exact path
  have queues : schedListInit state.queues (.head (.waiters futex)) = state.queues :=
    schedListInit_loose follows.queues ring
  have same : Store.initHead plain.queues (.waiters futex) = plain.queues :=
    Function.update_eq_self_iff.mpr empty.symm
  refine follows.quiet queues rfl rfl ?_ (follows.queued.futexInit empty)
  simp only [schedulerFutexInit, same]
  rw [← follows.reads]
  simp only [State.plain, Store.initHead, queues]

end Follows

end Primitives

end PicoToolkit
