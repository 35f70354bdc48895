import PicoToolkit.Library.Transition
import PicoToolkit.Scheduler.Services

/-!
What the futexes see of the scheduler: who waits, the priorities, the guarded words and the rings of
contended futexes.  The view has operations of its own; each does what the services do to the view.
-/

namespace PicoToolkit

open Ring Tag Transition

@[ext]
structure View where
  tasks : List Word
  base : Word → Nat
  current : Word → Nat
  waiters : Word → List Word
  futex : Word → Futex
  memory : Word → Word
  owned : Links Word Word

def State.view {R : Type → Type → Type} [Store R] {cores : Nat} (state : State R cores) : View where
  tasks := state.taskList
  base task := (state.task task).basePriority
  current task := (state.task task).currentPriority
  waiters futex := state.queue (.waiters futex)
  futex := state.futex
  memory := state.memory
  owned := state.ownedFutexes

def insertByUrgency (current : Word → Nat) (task : Word) (tasks : List Word) : List Word :=
  insertEntry (tasks.find? fun entry => decide (current entry > current task)) task tasks

instance (priority := high) {p : Word → Prop} [DecidablePred p] (tasks : List Word) :
    Decidable (∀ task ∈ tasks, p task) :=
  List.decidableBAll p tasks

instance (priority := high) {p : Word → Prop} [DecidablePred p] (tasks : List Word) :
    Decidable (∃ task ∈ tasks, p task) :=
  List.decidableBEx p tasks

theorem filter_absent {task : Word} {tasks : List Word} (absent : task ∉ tasks) :
    tasks.filter (· ≠ task) = tasks := by
  refine List.filter_eq_self.mpr fun other member => ?_
  have different : other ≠ task := fun same => absent (same ▸ member)
  simpa using different

namespace View

def value (view : View) (futex : Word) : Word := view.memory (view.futex futex).value

def owner (view : View) (futex : Word) : Word := untag (view.value futex)

def Waits (view : View) (task futex : Word) : Prop := task ∈ view.waiters futex

instance (view : View) (task futex : Word) : Decidable (view.Waits task futex) :=
  inferInstanceAs (Decidable (task ∈ view.waiters futex))

def highest (view : View) (futex : Word) : Nat :=
  match view.waiters futex with
  | [] => schedulerNumTaskPriorities
  | first :: _ => view.current first

def setValue (view : View) (futex value : Word) : View :=
  { view with memory := Function.update view.memory (view.futex futex).value value }

def remove (view : View) (task : Word) : View :=
  { view with waiters := fun futex => (view.waiters futex).filter (· ≠ task) }

def enqueue (view : View) (futex task : Word) : View :=
  { view with
    waiters := Function.update view.waiters futex
      (insertByUrgency view.current task (view.waiters futex)) }

theorem waiters_enqueue (view : View) (futex task other : Word) :
    (view.enqueue futex task).waiters other =
      if other = futex then insertByUrgency view.current task (view.waiters futex)
      else view.waiters other := by
  by_cases same : other = futex
  · subst other
    simp [enqueue]
  · simp [enqueue, same]

def reprioritize (view : View) (task : Word) (priority : Nat) : View :=
  let current := Function.update view.current task priority
  { view with
    current := current
    waiters := fun futex =>
      if task ∈ view.waiters futex then
        insertByUrgency current task ((view.waiters futex).filter (· ≠ task))
      else view.waiters futex }

def unlinkOwned (view : View) (futex : Word) : View :=
  { view with owned := schedListRemove view.owned (.node futex) }

def addOwned (view : View) (futex task : Word) : View :=
  { view with owned := schedListAdd view.owned (.head task) (.node futex) }

def linkOwned (view : View) (futex owner : Word) : View :=
  { view with
    owned :=
      if schedListIsLinked view.owned (.node futex) then view.owned
      else (view.addOwned futex owner).owned }

def boost (view : View) (futex owner : Word) : View :=
  let view := view.linkOwned futex owner
  if view.highest futex < view.current owner then view.reprioritize owner (view.highest futex)
  else view

def wait (view : View) (task futex value : Word) : View :=
  let view := (view.setValue futex value).enqueue futex task
  if (view.futex futex).inherits then view.boost futex (untag value) else view

def restoredPriority (view : View) (futex : Word) (owned : List Word) : Nat :=
  owned.foldl (fun highest other => min highest (view.highest other)) (view.base (view.owner futex))

def restore (view : View) (futex : Word) : Option View :=
  if (view.futex futex).inherits then
    let owner := view.owner futex
    let view := view.unlinkOwned futex
    (schedListEntries? view.owned owner).map fun owned =>
      view.reprioritize owner (view.restoredPriority futex owned)
  else some view

def trackOwner (view : View) (futex task : Word) : View :=
  { view with
    memory :=
      if flagSet (view.futex futex).flags schedulerFutexOwnerTracking then
        (view.setValue futex task).memory
      else view.memory }

def adopt (view : View) (futex task : Word) : View :=
  if flagSet (view.futex futex).flags schedulerFutexPi && !(view.waiters futex).isEmpty then
    (view.addOwned futex task).reprioritize task (view.highest futex)
  else view

def wakeWaiters (futex : Word) (all : Bool) : Nat → View → View
  | 0, view => view
  | fuel + 1, view =>
      match view.waiters futex with
      | [] => view
      | task :: _ =>
          let view := ((view.remove task).trackOwner futex task).adopt futex task
          if !all || flagSet (view.futex futex).flags schedulerFutexOwnerTracking then view
          else wakeWaiters futex all fuel view

def trackContention (view : View) (futex : Word) : View :=
  { view with
    memory :=
      if flagSet (view.futex futex).flags schedulerFutexContentionTracking then
        (view.setValue futex (if (view.waiters futex).isEmpty then untag (view.value futex)
          else tag (view.value futex))).memory
      else view.memory }

def wake (view : View) (futex : Word) (all : Bool) : Option View :=
  (view.restore futex).map fun view =>
    (wakeWaiters futex all (view.waiters futex).length view).trackContention futex

def create (view : View) (task : Word) (priority : Nat) : View :=
  { view with
    tasks := insertEntry none task view.tasks
    base := Function.update view.base task priority
    current := Function.update view.current task priority
    owned := schedListInit view.owned (.head task) }

def exit (view : View) (task : Word) : View :=
  { view.remove task with tasks := view.tasks.filter (· ≠ task) }

def setPriority (view : View) (task : Word) (priority : Nat) : View :=
  { view with base := Function.update view.base task priority }.reprioritize task priority

def initFutex (view : View) (futex value flags : Word) : View :=
  { view with
    futex := Function.update view.futex futex { value := value, flags := flags, marker := true }
    owned := schedListInit view.owned (.node futex) }

end View

inductive Event where
  | quiet
  | create (task : Word) (priority : Nat)
  | exit (task : Word)
  | depart (task : Word)
  | setPriority (task : Word) (priority : Nat)
  | wait (task futex expected : Word)
  | wake (futex : Word) (all : Bool)
  | store (address value : Word)
  | initFutex (futex value flags : Word)

namespace View

def perform (view : View) : Event → Option View
  | .quiet => some view
  | .create task priority => some (view.create task priority)
  | .exit task => some (view.exit task)
  | .depart task => some (view.remove task)
  | .setPriority task priority => some (view.setPriority task priority)
  | .wait task futex expected => some (view.wait task futex (waitValue (view.futex futex) expected))
  | .wake futex all => view.wake futex all
  | .store address value => some { view with memory := Function.update view.memory address value }
  | .initFutex futex value flags => some (view.initFutex futex value flags)

def Enabled (view : View) : Event → Prop
  | .quiet => True
  | .create task _ => task ∉ view.tasks ∧ (∀ futex, ¬view.Waits task futex) ∧ task ≠ 0 ∧ Untagged task
  | .exit _ => True
  | .depart _ => True
  | .setPriority task _ => task ∈ view.tasks
  | .wait task futex expected =>
      task ∈ view.tasks ∧ (∀ other, ¬view.Waits task other) ∧
        (view.value futex = expected ∨ view.value futex = waitValue (view.futex futex) expected)
  | .wake _ _ => True
  | .store _ _ => True
  | .initFutex futex _ _ => view.waiters futex = []

end View

def contention : System View Event where
  initial view := ∃ memory,
    view = {
      tasks := []
      base := fun _ => 0
      current := fun _ => 0
      waiters := fun _ => []
      futex := fun _ => {}
      memory := memory
      owned := Links.empty }
  step := View.perform

end PicoToolkit
