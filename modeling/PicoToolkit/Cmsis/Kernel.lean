import PicoToolkit.Scheduler.State

/-!
What the functions of the CMSIS-RTOS2 layer share: their status codes and the context check.
-/

namespace PicoToolkit

inductive OsStatus where
  | osOK
  | osError
  | osErrorTimeout
  | osErrorResource
  | osErrorParameter
  | osErrorNoMemory
  | osErrorISR
  deriving DecidableEq

/-- `osStatus_t` as the number that a function of type `uint32_t` returns for it. -/
def OsStatus.code : OsStatus → Word
  | .osOK => 0
  | .osError => -1
  | .osErrorTimeout => -2
  | .osErrorResource => -3
  | .osErrorParameter => -4
  | .osErrorNoMemory => -5
  | .osErrorISR => -6

theorem OsStatus.code_eq_osOK {status : OsStatus} : status.code = OsStatus.osOK.code ↔ status = .osOK := by
  cases status with
  | _ => decide

inductive OsKernelState where
  | osKernelInactive
  | osKernelReady
  | osKernelRunning
  | osKernelLocked
  | osKernelSuspended
  | osKernelError
  deriving DecidableEq

/-- Who calls: a thread, or a handler of an interrupt that may use the scheduler. -/
inductive Context where
  | thread
  | handler
  deriving DecidableEq

/-- `status < 0` -/
def Result.negative : Result → Bool
  | .value word => word.msb
  | .error _ => true

def osWaitForever : Word := 0xffffffff

def osDynamicAlloc : Word := 0x80000000

def osKernelContextIsValid (allowed : Bool) (timeout : Word) (context : Context) : OsStatus :=
  match context with
  | .thread => .osOK
  | .handler =>
      if allowed then if timeout ≠ 0 then .osErrorParameter else .osOK
      else .osErrorISR

def osIsResourceValid (found marker : Word) : OsStatus :=
  if found = marker ∨ found = ~~~marker then .osOK else .osErrorParameter

def osChecked {Place : Type} (status : OsStatus) (next : Place ⊕ OsStatus) : Place ⊕ OsStatus :=
  if status = .osOK then next else .inr status

theorem osChecked_cases {Place : Type} (status : OsStatus) (next : Place ⊕ OsStatus) :
    osChecked status next = next ∨ ∃ error, error ≠ .osOK ∧ osChecked status next = .inr error := by
  by_cases succeeds : status = .osOK
  · exact Or.inl (if_pos succeeds)
  · exact Or.inr ⟨status, succeeds, if_neg succeeds⟩

end PicoToolkit
