import PicoToolkit.Cmsis.Kernel
import PicoToolkit.Library.Transition

/-!
The lock of the kernel: a flag, the counter of the scheduler, and the state that is reported.
-/

namespace PicoToolkit

open Transition

/-- `struct rtos_kernel`, as far as it is about the lock, and the lock counter of the scheduler. -/
structure KernelState where
  locked : Int
  state : OsKernelState
  schedulerLocked : Int
  deriving DecidableEq

def schedulerLock (kernel : KernelState) : KernelState :=
  { kernel with schedulerLocked := kernel.schedulerLocked - 1 }

def schedulerUnlock (kernel : KernelState) : KernelState :=
  { kernel with schedulerLocked := kernel.schedulerLocked + 1 }

def KernelState.active (kernel : KernelState) : Bool :=
  decide (kernel.state = .osKernelRunning ∨ kernel.state = .osKernelLocked)

def lockError : Int := -1

def osKernelLock (kernel : KernelState) : Int × KernelState :=
  if kernel.active then
    let locked := { kernel with locked := 1, state := .osKernelLocked }
    (kernel.locked, if kernel.locked = 0 then schedulerLock locked else locked)
  else (lockError, kernel)

def osKernelUnlock (kernel : KernelState) : Int × KernelState :=
  if kernel.active then
    let unlocked := { kernel with locked := 0, state := .osKernelRunning }
    (kernel.locked, if kernel.locked ≠ 0 then schedulerUnlock unlocked else unlocked)
  else (lockError, kernel)

def osKernelRestoreLock (lock : Int) (kernel : KernelState) : Int × KernelState :=
  if kernel.active then
    let restored := { kernel with locked := lock }
    (lock,
      if lock ≠ 0 then { schedulerLock restored with state := .osKernelLocked }
      else { schedulerUnlock restored with state := .osKernelRunning })
  else (lockError, kernel)

def osKernelSuspend (kernel : KernelState) : Word × KernelState :=
  if kernel.state = .osKernelSuspended then (0, kernel)
  else (osWaitForever, { kernel with state := .osKernelSuspended })

def osKernelResume (kernel : KernelState) : KernelState :=
  { kernel with state := .osKernelRunning }

inductive KernelCall where
  | osKernelLock
  | osKernelUnlock
  | osKernelRestoreLock (lock : Bool)
  | osKernelSuspend
  | osKernelResume

def KernelState.step (kernel : KernelState) : KernelCall → KernelState
  | .osKernelLock => (PicoToolkit.osKernelLock kernel).2
  | .osKernelUnlock => (PicoToolkit.osKernelUnlock kernel).2
  | .osKernelRestoreLock lock => (PicoToolkit.osKernelRestoreLock lock.toInt kernel).2
  | .osKernelSuspend => (PicoToolkit.osKernelSuspend kernel).2
  | .osKernelResume => PicoToolkit.osKernelResume kernel

def startedKernel : KernelState where
  locked := 0
  state := .osKernelRunning
  schedulerLocked := 0

def kernelSystem : System KernelState KernelCall where
  initial kernel := kernel = startedKernel
  step kernel call := some (kernel.step call)

structure Agrees (kernel : KernelState) : Prop where
  flag : kernel.locked = 0 ∨ kernel.locked = 1
  counter : kernel.schedulerLocked = 0 ∨ kernel.schedulerLocked = -1
  locks : kernel.schedulerLocked = -1 ↔ kernel.locked ≠ 0
  reports : kernel.state ≠ .osKernelSuspended →
    kernel.state = if kernel.locked ≠ 0 then .osKernelLocked else .osKernelRunning

/-- `osKernelRestoreLock` changes the lock, and `osKernelResume` finds it open. -/
def LockStep (kernel : KernelState) : KernelCall → Prop
  | .osKernelRestoreLock lock => kernel.active = true → lock.toInt ≠ kernel.locked
  | .osKernelResume => kernel.locked = 0
  | _ => True

/-- `s = osKernelLock(); ...; osKernelRestoreLock(s);`, with more of the same in between, and after it. -/
inductive LockIdiom where
  | done
  | lock (inner rest : LockIdiom)

namespace LockIdiom

def run : LockIdiom → KernelState → KernelState
  | .done, kernel => kernel
  | .lock inner rest, kernel =>
      let (saved, locked) := osKernelLock kernel
      rest.run (osKernelRestoreLock saved (inner.run locked)).2

def count : LockIdiom → Nat
  | .done => 0
  | .lock inner rest => 1 + inner.count + rest.count

def nested : LockIdiom → Nat
  | .done => 0
  | .lock inner rest => inner.count + rest.nested

end LockIdiom

section Agrees

variable {kernel : KernelState}

theorem Agrees.states (agrees : Agrees kernel) :
    (kernel.locked = 0 ∧ kernel.schedulerLocked = 0 ∧
        (kernel.state = .osKernelRunning ∨ kernel.state = .osKernelSuspended)) ∨
      kernel.locked = 1 ∧ kernel.schedulerLocked = -1 ∧
        (kernel.state = .osKernelLocked ∨ kernel.state = .osKernelSuspended) := by
  obtain ⟨flag, counter, locks, reports⟩ := agrees
  by_cases suspended : kernel.state = .osKernelSuspended
  · rcases flag with unlocked | locked
    · exact Or.inl ⟨unlocked, by omega, Or.inr suspended⟩
    · exact Or.inr ⟨locked, by omega, Or.inr suspended⟩
  · have reported := reports suspended
    rcases flag with unlocked | locked
    · rw [if_neg (not_not.mpr unlocked)] at reported
      exact Or.inl ⟨unlocked, by omega, Or.inl reported⟩
    · rw [if_pos (by omega)] at reported
      exact Or.inr ⟨locked, by omega, Or.inl reported⟩

theorem agrees_iff : Agrees kernel ↔
    kernel = ⟨0, .osKernelRunning, 0⟩ ∨ kernel = ⟨0, .osKernelSuspended, 0⟩ ∨
      kernel = ⟨1, .osKernelLocked, -1⟩ ∨ kernel = ⟨1, .osKernelSuspended, -1⟩ := by
  constructor
  · intro agrees
    obtain ⟨locked, state, counter⟩ := kernel
    rcases agrees.states with ⟨rfl, rfl, rfl | rfl⟩ | ⟨rfl, rfl, rfl | rfl⟩
    · exact Or.inl rfl
    · exact Or.inr (Or.inl rfl)
    · exact Or.inr (Or.inr (Or.inl rfl))
    · exact Or.inr (Or.inr (Or.inr rfl))
  · rintro (rfl | rfl | rfl | rfl)
    · exact ⟨Or.inl rfl, Or.inl rfl, by decide, by decide⟩
    · exact ⟨Or.inl rfl, Or.inl rfl, by decide, by decide⟩
    · exact ⟨Or.inr rfl, Or.inr rfl, by decide, by decide⟩
    · exact ⟨Or.inr rfl, Or.inr rfl, by decide, by decide⟩

instance : Decidable (Agrees kernel) := decidable_of_iff _ agrees_iff.symm

instance : (call : KernelCall) → Decidable (LockStep kernel call)
  | .osKernelRestoreLock lock =>
      inferInstanceAs (Decidable (kernel.active = true → lock.toInt ≠ kernel.locked))
  | .osKernelResume => inferInstanceAs (Decidable (kernel.locked = 0))
  | .osKernelLock | .osKernelUnlock | .osKernelSuspend => isTrue trivial

theorem Agrees.step_iff (agrees : Agrees kernel) (call : KernelCall) :
    Agrees (kernel.step call) ↔ LockStep kernel call := by
  rcases agrees_iff.mp agrees with rfl | rfl | rfl | rfl
  all_goals
    cases call with
    | osKernelRestoreLock lock =>
        cases lock with
        | _ => decide
    | _ => decide

end Agrees

namespace LockIdiom

theorem run_suspended (idiom : LockIdiom) (kernel : KernelState)
    (suspended : kernel.state = .osKernelSuspended) : idiom.run kernel = kernel := by
  have refused : kernel.active = false := by
    rw [KernelState.active, suspended]
    rfl
  induction idiom with
  | done => rfl
  | lock inner rest ihInner ihRest =>
      rw [run, osKernelLock, refused]
      change rest.run (osKernelRestoreLock lockError (inner.run kernel)).2 = kernel
      rw [ihInner, osKernelRestoreLock, refused]
      exact ihRest

theorem run_locked (idiom : LockIdiom) (counter : Int) :
    idiom.run ⟨1, .osKernelLocked, counter⟩ = ⟨1, .osKernelLocked, counter - idiom.count⟩ := by
  induction idiom generalizing counter with
  | done => exact congrArg (KernelState.mk 1 .osKernelLocked) (Int.sub_zero counter).symm
  | lock inner rest ihInner ihRest =>
      change rest.run (osKernelRestoreLock 1 (inner.run ⟨1, .osKernelLocked, counter⟩)).2 = _
      rw [ihInner]
      change rest.run ⟨1, .osKernelLocked, counter - inner.count - 1⟩ = _
      rw [ihRest, count]
      congr 1
      omega

theorem run_unlocked (idiom : LockIdiom) (counter : Int) :
    idiom.run ⟨0, .osKernelRunning, counter⟩ = ⟨0, .osKernelRunning, counter - idiom.nested⟩ := by
  induction idiom generalizing counter with
  | done => exact congrArg (KernelState.mk 0 .osKernelRunning) (Int.sub_zero counter).symm
  | lock inner rest _ ihRest =>
      change rest.run (osKernelRestoreLock 0 (inner.run ⟨1, .osKernelLocked, counter - 1⟩)).2 = _
      rw [run_locked]
      change rest.run ⟨0, .osKernelRunning, counter - 1 - inner.count + 1⟩ = _
      rw [ihRest, nested]
      congr 1
      omega

/-- The idiom leaves the lock as it was found exactly if the kernel is suspended, or it is unlocked and no
idiom stands in another, or there is no idiom at all. -/
theorem run_eq_iff (idiom : LockIdiom) {kernel : KernelState} (agrees : Agrees kernel) :
    idiom.run kernel = kernel ↔ kernel.state = .osKernelSuspended ∨
      (kernel.locked = 0 ∧ idiom.nested = 0) ∨ idiom.count = 0 := by
  have nestedLe : idiom.nested ≤ idiom.count := by
    induction idiom with
    | done => exact Nat.le_refl 0
    | lock inner rest _ ihRest =>
        rw [nested, count]
        omega
  rcases agrees_iff.mp agrees with rfl | rfl | rfl | rfl
  · rw [run_unlocked]
    simp only [KernelState.mk.injEq, reduceCtorEq, true_and, false_or]
    omega
  · rw [run_suspended _ _ rfl]
    simp only [true_or]
  · rw [run_locked]
    simp only [KernelState.mk.injEq, reduceCtorEq, true_and, false_or]
    omega
  · rw [run_suspended _ _ rfl]
    simp only [true_or]

end LockIdiom

/-- In every run in which `osKernelRestoreLock` changes the lock and `osKernelResume` finds it open, the flag,
the counter and the reported state agree, and the next call that does not do so ends this; the idiom leaves
the lock as found exactly if it does not lock a locked kernel. -/
theorem agrees_of_guarded {kernel : KernelState} (reached : kernelSystem.Guarded LockStep kernel) :
    Agrees kernel ∧ (∀ call, Agrees (kernel.step call) ↔ LockStep kernel call) ∧
      ∀ idiom : LockIdiom, idiom.run kernel = kernel ↔ kernel.state = .osKernelSuspended ∨
        (kernel.locked = 0 ∧ idiom.nested = 0) ∨ idiom.count = 0 := by
  have agrees : Agrees kernel := by
    refine reached.invariant (motive := Agrees) ?_ ?_
    · rintro kernel rfl
      exact agrees_iff.mpr (Or.inl rfl)
    · intro kernel call next agrees allowed moved
      obtain rfl := Option.some_inj.mp moved
      exact (agrees.step_iff call).mpr allowed
  exact ⟨agrees, agrees.step_iff, fun idiom => idiom.run_eq_iff agrees⟩

section Runs

theorem initial_startedKernel : kernelSystem.initial startedKernel := rfl

def lockCalls : List KernelCall :=
  [.osKernelLock, .osKernelRestoreLock false, .osKernelRestoreLock true, .osKernelLock, .osKernelSuspend,
    .osKernelRestoreLock true, .osKernelUnlock]

theorem agrees_of_guarded_calls : ∃ kernel, kernelSystem.Guarded LockStep kernel ∧
    kernel = ⟨1, .osKernelSuspended, -1⟩ ∧ Agrees kernel := by
  obtain ⟨kernel, reached, isKernel⟩ := System.exists_of_run LockStep initial_startedKernel lockCalls
    (fun kernel => kernel = ⟨1, .osKernelSuspended, -1⟩) (by decide)
  exact ⟨kernel, reached, isKernel, (agrees_of_guarded reached).1⟩

/-- The idiom in itself leaves an unlocked kernel with a locked scheduler, a kernel that is unlocked twice
unlocks the scheduler twice, and a locked kernel that resumes reports that it runs. -/
theorem not_agrees :
    ((LockIdiom.lock (.lock .done .done) .done).run ⟨0, .osKernelRunning, 0⟩ =
      ⟨0, .osKernelRunning, -1⟩) ∧
    (∃ kernel, kernelSystem.Reachable kernel ∧ kernel.schedulerLocked = 1) ∧
    ∃ kernel, kernelSystem.Reachable kernel ∧ kernel.locked = 1 ∧ kernel.state = .osKernelRunning := by
  refine ⟨rfl, ?_, ?_⟩
  · exact System.exists_of_run (fun _ _ => True) initial_startedKernel [.osKernelRestoreLock false]
      (fun kernel => kernel.schedulerLocked = 1) (by decide)
  · exact System.exists_of_run (fun _ _ => True) initial_startedKernel
      [.osKernelLock, .osKernelSuspend, .osKernelResume]
      (fun kernel => kernel.locked = 1 ∧ kernel.state = .osKernelRunning) (by decide)

end Runs

end PicoToolkit
