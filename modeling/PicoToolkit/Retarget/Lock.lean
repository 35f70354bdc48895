import PicoToolkit.Library.Memory
import PicoToolkit.Library.Transition
import PicoToolkit.Scheduler.State

/-!
The lock of the C library on the scheduler: `__retarget_lock_acquire`, `__retarget_lock_try_acquire`
and `__retarget_lock_release` on one initialised lock.  A step is an access to a field of the lock, an
atomic operation on it, or a service call on its futex; tasks change cores between steps.
-/

namespace PicoToolkit.Retarget

open Transition Memory

structure TaskPointer where
  pointer : Word
  aligned : pointer.toNat % 4 = 0
  nonzero : pointer ≠ 0
  deriving DecidableEq

/-- `(long)scheduler_task() | (scheduler_current_core() + 1)` -/
def TaskPointer.lockValue (task : TaskPointer) (core : Fin 2) : Word :=
  task.pointer ||| (BitVec.ofNat 32 core + 1)

theorem toNat_lockValue (task : TaskPointer) (core : Fin 2) :
    (task.lockValue core).toNat = task.pointer.toNat + (core + 1) := by
  have aligned := task.aligned
  have isCore := core.isLt
  have number : (BitVec.ofNat 32 core + 1).toNat = core + 1 := by
    rw [BitVec.toNat_add, BitVec.toNat_ofNat]
    have one : (1 : Word).toNat = 1 := by decide
    omega
  have multiple : task.pointer.toNat = 2 ^ 2 * (task.pointer.toNat / 4) := by omega
  rw [TaskPointer.lockValue, BitVec.toNat_or, number, multiple,
    ← Nat.two_pow_add_eq_or_of_lt (show (core : Nat) + 1 < 2 ^ 2 by omega)]

theorem lockValue_inj {first second : TaskPointer} {core other : Fin 2}
    (same : first.lockValue core = second.lockValue other) : first = second ∧ core = other := by
  have equal := congrArg BitVec.toNat same
  rw [toNat_lockValue, toNat_lockValue] at equal
  have aligned := first.aligned
  have alignedOther := second.aligned
  have isCore := core.isLt
  have isOther := other.isLt
  have pointers : first.pointer = second.pointer := BitVec.eq_of_toNat_eq (by omega)
  refine ⟨?_, Fin.ext (by omega)⟩
  cases first
  cases second
  cases pointers
  rfl

theorem lockValue_ne_zero (task : TaskPointer) (core : Fin 2) :
    task.lockValue core ≠ 0 := by
  intro zero
  have equal := congrArg BitVec.toNat zero
  have toNatZero : (0 : Word).toNat = 0 := rfl
  rw [toNat_lockValue, toNatZero] at equal
  omega

theorem lockValue_and_ne_zero (task : TaskPointer) (core : Fin 2) :
    task.lockValue core &&& ~~~3 ≠ 0 := by
  intro zero
  have equal := congrArg BitVec.toNat zero
  have toNatZero : (0 : Word).toNat = 0 := rfl
  rw [toNat_and_not_three, toNat_lockValue, toNatZero] at equal
  have aligned := task.aligned
  have nonzero : task.pointer.toNat ≠ 0 := fun isZero => task.nonzero (BitVec.eq_of_toNat_eq isZero)
  omega

structure RetargetLock where
  value : Word := 0
  expected : Word := 0
  count : Int := 0

/-- Where a task is; the flag of the first places says whether it waits for the lock if it is held. -/
inductive LockPlace where
  | idle
  | begin (waits : Bool)
  | load (waits : Bool) (value : Word)
  | again
  | countAgain (count : Int)
  | clear (waits : Bool) (value : Word)
  | exchange (waits : Bool) (value : Word)
  | count
  /-- In `__retarget_runtime_relax`; the compare-exchange has found the value. -/
  | relax (found : Word)
  | wait (expected : Word)
  | blocked
  | check
  | countDown
  | uncount (count : Int)
  | store
  | release (value : Word)
  /-- In `__retarget_runtime_wake`, with the value that an outermost release has stored. -/
  | wake (value : Option Word)
  | signal
  | aborted
  deriving DecidableEq

/-- A task: the core on which it runs or has run last, its place, and how many of its acquires it has
not released yet. -/
structure LockTask where
  core : Fin 2 := 0
  place : LockPlace := .idle
  depth : Nat := 0

structure LockState where
  lock : RetargetLock := {}
  waiters : List TaskPointer := []
  task : TaskPointer → LockTask := fun _ => {}

inductive LockCall where
  | acquire
  | tryAcquire
  | release
  deriving DecidableEq

/-- The begin of a call, the next step of a task, with the waiter that it wakes if it wakes one, the
switch of a task to another core, and a wait that is broken by `scheduler_resume`. -/
inductive LockAction where
  | call (task : TaskPointer) (call : LockCall)
  | act (task : TaskPointer) (woken : TaskPointer)
  | migrate (task : TaskPointer) (core : Fin 2)
  | resume (task : TaskPointer)

namespace LockState

def set (state : LockState) (task : TaskPointer) (after : LockTask) : LockState :=
  { state with task := Function.update state.task task after }

def goes (state : LockState) (task : TaskPointer) (place : LockPlace) : LockState :=
  state.set task { state.task task with place := place }

theorem goes_self (state : LockState) (task : TaskPointer) (place : LockPlace) :
    (state.goes task place).task task = { state.task task with place := place } :=
  Function.update_self ..

theorem goes_of_ne (state : LockState) {task other : TaskPointer} (place : LockPlace) (different : other ≠ task) :
    (state.goes task place).task other = state.task other :=
  Function.update_of_ne different ..

theorem goes_depth (state : LockState) (task other : TaskPointer) (place : LockPlace) :
    ((state.goes task place).task other).depth = (state.task other).depth := by
  by_cases same : other = task
  · rw [same, goes_self]
  · rw [goes_of_ne state place same]

def wakes (state : LockState) (waiter : TaskPointer) : LockState :=
  { state.goes waiter (.begin true) with waiters := state.waiters.erase waiter }

def advance (state : LockState) (task woken : TaskPointer) : Option LockState :=
  let lock := state.lock
  let current := task.lockValue (state.task task).core
  let held (depth : Nat) (place : LockPlace) : LockState :=
    state.set task { state.task task with place := place, depth := depth }
  match (state.task task).place with
  | .idle | .blocked | .aborted => none
  | .begin waits => some (state.goes task (.load waits current))
  | .load waits value =>
      some (state.goes task (if value = lock.value then .again else .clear waits value))
  | .again => some (state.goes task (.countAgain (lock.count + 1)))
  | .countAgain count =>
      some { held ((state.task task).depth + 1) .idle with lock := { lock with count := count } }
  | .clear waits value =>
      some { state.goes task (.exchange waits value) with lock := { lock with expected := 0 } }
  | .exchange waits value =>
      if lock.value = lock.expected then
        some { held 1 .count with lock := { lock with value := value } }
      else
        some { state.goes task (if waits then .relax lock.value else .idle) with
          lock := { lock with expected := lock.value } }
  | .count => some { state.goes task .idle with lock := { lock with count := 1 } }
  | .relax _ =>
      -- the scheduler is running, for a task makes the call
      some (state.goes task (.wait lock.expected))
  | .wait expected =>
      if lock.value = expected then
        some { state.goes task .blocked with waiters := state.waiters ++ [task] }
      else some (state.goes task (.begin true))
  | .check => some (state.goes task (if lock.value = current then .countDown else .store))
  | .countDown => some (state.goes task (.uncount (lock.count - 1)))
  | .uncount count =>
      if 0 < count then
        some { held ((state.task task).depth - 1) (.wake none) with
          lock := { lock with count := count } }
      else some { state.goes task .store with lock := { lock with count := count } }
  | .store => some { state.goes task (.release current) with lock := { lock with expected := current } }
  | .release value =>
      if lock.value = lock.expected then
        some { held 0 (.wake (some value)) with lock := { lock with value := 0 } }
      else
        some { state.goes task .aborted with lock := { lock with expected := lock.value } }
  | .wake _ =>
      some (state.goes task (if lock.expected &&& ~~~3 = 0 then .idle else .signal))
  | .signal =>
      if state.waiters = [] then some (state.goes task .idle)
      else if woken ∈ state.waiters then some ((state.goes task .idle).wakes woken)
      else none

def step (state : LockState) : LockAction → Option LockState
  | .call task call =>
      if (state.task task).place = .idle then
        some (state.goes task
          (match call with
          | .acquire => .begin true
          | .tryAcquire => .begin false
          | .release => .check))
      else none
  | .act task woken => state.advance task woken
  | .migrate task core => some (state.set task { state.task task with core := core })
  | .resume task =>
      -- the wait returns `-ECANCELED`, on which the task aborts
      if (state.task task).place = .blocked then
        some { state.goes task .aborted with waiters := state.waiters.erase task }
      else none

end LockState

abbrev retargetSystem : System LockState LockAction where
  initial state := state.lock.value = 0 ∧ state.waiters = [] ∧
    ∀ task, (state.task task).place = .idle ∧ (state.task task).depth = 0
  step := LockState.step

/-- What a task reads from `expected` is what it has last written there. -/
def ReadsOwn (state : LockState) : LockAction → Prop
  | .act task _ =>
      match (state.task task).place with
      | .exchange _ _ => state.lock.expected = 0
      | .relax found => state.lock.expected = found
      | .release value => state.lock.expected = value
      | .wake (some value) => state.lock.expected = value
      | _ => True
  | _ => True

/-- A task that holds the lock evaluates `__retarget_runtime_lock_value` on the core whose number is in
the lock. -/
def OnOwnCore (state : LockState) : LockAction → Prop
  | .act task _ =>
      match (state.task task).place with
      | .begin _ | .check | .store => 0 < (state.task task).depth →
          task.lockValue (state.task task).core = state.lock.value
      | _ => True
  | _ => True

def Stays (state : LockState) : LockAction → Prop
  | .migrate task _ => (state.task task).place = .idle ∧ (state.task task).depth = 0
  | _ => True

instance (state : LockState) (action : LockAction) : Decidable (ReadsOwn state action) := by
  unfold ReadsOwn
  repeat' split
  all_goals infer_instance

instance (state : LockState) (action : LockAction) : Decidable (OnOwnCore state action) := by
  unfold OnOwnCore
  repeat' split
  all_goals infer_instance

instance (state : LockState) (action : LockAction) : Decidable (Stays state action) := by
  unfold Stays
  split
  all_goals infer_instance

end PicoToolkit.Retarget
