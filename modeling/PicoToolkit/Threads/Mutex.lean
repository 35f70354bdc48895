import PicoToolkit.Threads.Machine

/-!
Locks whose word holds the task that owns them: the loop that `_mtx_lock` and `osMutexAcquire` share, and
the functions of `mtx_t`.
-/

namespace PicoToolkit

open Interleaving Tag

structure LockWords where
  value : Word
  count : Word
  futex : Word
  recursive : Bool

/-- The test for the own task, the increment of the count, the compare-exchange, the wait for the lock,
the test after it, and the first count. -/
inductive LockPlace where
  | owned
  | again
  | exchange
  | wait (expected : Word)
  | check
  | first
  deriving DecidableEq

/-- How the loop ends: with the lock, as its owner already, without waiting, or with a failed wait. -/
inductive LockEnd where
  | locked
  | owner
  | busy
  | failed (status : Result)
  deriving DecidableEq

variable {Data : Type}

def LockWords.taken (lock : LockWords) : LockPlace ⊕ LockEnd :=
  if lock.recursive then .inl .first else .inr .locked

def lockLoop (lock : LockWords) (tries : Bool) (self timeout : Word) :
    LockPlace → ThreadOp Data (LockPlace ⊕ LockEnd)
  | .owned => .word lock.value fun value =>
      (value, if self = untag value then
        if lock.recursive then .inl .again else .inr .owner
      else .inl .exchange)
  | .again => .word lock.count fun count => (count + 1, .inr .locked)
  | .exchange => .word lock.value fun value =>
      if value = 0 then (self, lock.taken)
      else (value, if tries ∧ timeout = 0 then .inr .busy else .inl (.wait value))
  | .wait expected => .service (.wait lock.futex expected timeout) fun status =>
      if status.negative then .inr (.failed status) else .inl .check
  | .check => .word lock.value fun value =>
      (value, if self = untag value then lock.taken else .inl .exchange)
  | .first => .word lock.count fun _ => (1, .inr .locked)

inductive ThrdStatus where
  | thrdSuccess
  | thrdTimedout
  | thrdError
  deriving DecidableEq

/-- What a function returns, and the number that it leaves in `errno`, negated. -/
abbrev ThrdReturn : Type := ThrdStatus × Option Result

/-- `mtx_t` -/
abbrev Mtx : Type := LockWords

def LockEnd.thrd : LockEnd → ThrdReturn
  | .locked => (.thrdSuccess, none)
  | .owner => (.thrdError, some (.error .einval))
  | .busy => (.thrdError, none)
  | .failed status =>
      (if status = .error .etimedout then .thrdTimedout else .thrdError, some status)

/-- `_mtx_lock` -/
def mtxLockFor (mtx : Mtx) (self msec : Word) (place : LockPlace) :
    ThreadOp Data (LockPlace ⊕ ThrdReturn) :=
  (lockLoop mtx false self msec place).map (Sum.map id LockEnd.thrd)

def mtxLock (mtx : Mtx) (self : Word) (place : LockPlace) : ThreadOp Data (LockPlace ⊕ ThrdReturn) :=
  mtxLockFor mtx self schedulerWaitForever place

/-- The test for the own task, the decrement of the count, the test before the compare-exchange, the
compare-exchange, and the wake of a waiter. -/
inductive UnlockPlace where
  | owned
  | count
  | load
  | exchange
  | wake
  deriving DecidableEq

def mtxUnlock (mtx : Mtx) (self : Word) : UnlockPlace → ThreadOp Data (UnlockPlace ⊕ ThrdReturn)
  | .owned => .word mtx.value fun value =>
      (value, if self ≠ untag value then .inr (.thrdError, some (.error .einval))
      else if mtx.recursive then .inl .count else .inl .load)
  | .count => .word mtx.count fun count =>
      (count - 1, if 0 < (count - 1).toInt then .inr (.thrdSuccess, none) else .inl .load)
  | .load => .word mtx.value fun value => (value, .inl (if value = self then .exchange else .wake))
  | .exchange => .word mtx.value fun value =>
      if value = self then (0, .inr (.thrdSuccess, none)) else (value, .inl .wake)
  | .wake => .service (.wake mtx.futex false) fun status =>
      .inr (if status.negative then (.thrdError, some status) else (.thrdSuccess, none))

end PicoToolkit
