import PicoToolkit.Threads.Mutex

/-!
Mutexes of CMSIS-RTOS2.
-/

namespace PicoToolkit

open Interleaving Tag

def rtosMutexMarker : Word := 0x42022024

structure RtosMutex where
  marker : Word := rtosMutexMarker
  lock : LockWords

def LockEnd.status : LockEnd → OsStatus
  | .locked => .osOK
  | .owner => .osErrorParameter
  | .busy => .osErrorResource
  | .failed status =>
      if status = .error .etimedout ∨ status = .error .ecanceled then .osErrorTimeout else .osError

def osMutexAcquireStart (mutex : RtosMutex) (context : Context) : LockPlace ⊕ OsStatus :=
  osChecked (osKernelContextIsValid false 0 context) <|
    osChecked (osIsResourceValid mutex.marker rtosMutexMarker) <| .inl .owned

def osMutexAcquire {Data : Type} (mutex : RtosMutex) (self timeout : Word) (place : LockPlace) :
    ThreadOp Data (LockPlace ⊕ OsStatus) :=
  (lockLoop mutex.lock true self timeout place).map (Sum.map id LockEnd.status)

def osMutexReleaseStart (mutex : RtosMutex) (context : Context) : UnlockPlace ⊕ OsStatus :=
  osChecked (osKernelContextIsValid false 0 context) <|
    osChecked (osIsResourceValid mutex.marker rtosMutexMarker) <| .inl .owned

def releaseStatus : ThrdReturn → OsStatus
  | (.thrdSuccess, _) => .osOK
  | _ => .osError

/-- What `osMutexGetOwner` returns for the word of a valid mutex; `contexts` tells the `context` of each
task. -/
def ownerContext (contexts : Word → Word) (value : Word) : Word :=
  if value = 0 then 0 else contexts (untag value)

/-- What follows the comparison of the owner with `osThreadGetId` is as in `mtx_unlock`. -/
def osMutexRelease {Data : Type} (contexts : Word → Word) (mutex : RtosMutex) (self : Word) :
    UnlockPlace → ThreadOp Data (UnlockPlace ⊕ OsStatus)
  | .owned => .word mutex.lock.value fun value =>
      (value, if ownerContext contexts value ≠ contexts self then .inr .osErrorResource
      else if mutex.lock.recursive then .inl .count else .inl .load)
  | place => (mtxUnlock mutex.lock self place).map (Sum.map id releaseStatus)

end PicoToolkit
