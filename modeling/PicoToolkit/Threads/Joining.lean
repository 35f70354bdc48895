import Mathlib.Data.Fintype.Basic
import PicoToolkit.Library.Transition
import PicoToolkit.Threads.Mutex

/-!
The life of C threads: `thrd_exit` with `thrd_exit_handler`, `thrd_join`, `thrd_detach` with the
`call_once` of its reaper, and `thrds_reaper`.  A step is an access to a field, to `thrds` or to a
condition variable, or a service call; what a broken or spurious wait returns is part of the action.
-/

namespace PicoToolkit

open Transition

/-- The fields of `struct thrd` for the end of a thread, whether it is linked in `thrds`, and how often
its memory has been released. -/
structure Thrd (count : Nat) where
  ret : Word := 0
  detached : Bool := false
  terminated : Bool := false
  joiner : Option (Fin count) := none
  linked : Bool := false
  released : Nat := 0

/-- The condition variables that are waited for with `thrds_lock`, `thrds_reap` being the last. -/
inductive Cnd (count : Nat) where
  | joiners (thread : Fin count)
  | thrdsReap
  deriving DecidableEq

/-- In `_cnd_wait`, whose condition variable has or takes `thrds_lock` for its mutex. -/
inductive CndPlace where
  | sequence
  | unlock (sequence : Word)
  | futexWait (sequence : Word)
  | blocked
  | lock (status : Result)
  deriving DecidableEq

/-- What `_cnd_wait` returns for a status of its futex. -/
def cndStatus (status : Result) : ThrdStatus :=
  if status.negative then (if status = .error .etimedout then .thrdTimedout else .thrdError)
  else .thrdSuccess

inductive JoinPlace where
  | lock
  | detached
  | joiner
  | refuse
  | mark
  | terminated
  | wait (place : CndPlace)
  | remove (status : ThrdStatus)
  | unlock (status : ThrdStatus)
  | result (status : ThrdStatus)
  | release (status : ThrdStatus) (result : Word)
  | aborted
  deriving DecidableEq

/-- In `thrd_detach`: the steps of its `call_once`, which may run `thrds_reaper_init`, and the flag of the
task. -/
inductive DetachPlace where
  | load
  | claim
  | exchange
  | wait (value : Word)
  | init
  | create
  | setFlags
  | store
  | wake
  deriving DecidableEq

/-- In `thrd_exit` and, from `terminated` on, in `thrd_exit_handler`. -/
inductive FinishPlace (count : Nat) where
  | ret (result : Word)
  | terminated
  | detached
  | sequence (cnd : Cnd count)
  | wake (cnd : Cnd count)
  deriving DecidableEq

inductive ReapPlace where
  | lock
  | wait (place : CndPlace)
  | scan (index : Nat)
  | aborted
  deriving DecidableEq

/-- Where a thread is; a detach within `thrds_reaper_init` stands before the one that has called it. -/
inductive ThrdPlace (count : Nat) where
  | unborn
  | running
  | join (target : Fin count) (place : JoinPlace)
  | detach (place : DetachPlace) (targets : List (Fin count))
  | reap (place : ReapPlace)
  | finish (place : FinishPlace count)
  | gone
  deriving DecidableEq

def ThrdPlace.woken {count : Nat} (cnd : Cnd count) : ThrdPlace count → ThrdPlace count
  | .join target (.wait .blocked) =>
      .join target (.wait (if cnd = .joiners target then .lock (.value 0) else .blocked))
  | .reap (.wait .blocked) =>
      .reap (.wait (if cnd = .thrdsReap then .lock (.value 0) else .blocked))
  | place => place

theorem ThrdPlace.woken_cases {count : Nat} (cnd : Cnd count) (place : ThrdPlace count) :
    (∃ target after, place = .join target (.wait .blocked) ∧ place.woken cnd = .join target (.wait after) ∧
      (after = .blocked ∨ after = .lock (.value 0))) ∨
    (∃ after, place = .reap (.wait .blocked) ∧ place.woken cnd = .reap after) ∨
    place.woken cnd = place := by
  match place with
  | .join target (.wait .blocked) =>
      refine Or.inl ⟨target, _, rfl, rfl, ?_⟩
      split
      · exact Or.inr rfl
      · exact Or.inl rfl
  | .reap (.wait .blocked) => exact Or.inr (Or.inl ⟨_, rfl, rfl⟩)
  | .join _ .lock | .join _ .detached | .join _ .joiner | .join _ .refuse | .join _ .mark
  | .join _ .terminated | .join _ (.remove _) | .join _ (.unlock _) | .join _ (.result _)
  | .join _ (.release _ _) | .join _ .aborted | .join _ (.wait .sequence) | .join _ (.wait (.unlock _))
  | .join _ (.wait (.futexWait _)) | .join _ (.wait (.lock _)) | .reap .lock | .reap (.scan _)
  | .reap .aborted | .reap (.wait .sequence) | .reap (.wait (.unlock _)) | .reap (.wait (.futexWait _))
  | .reap (.wait (.lock _)) | .unborn | .running | .detach _ _ | .finish _ | .gone =>
      exact Or.inr (Or.inr rfl)

/-- The threads, `thrds_lock`, the sequences of the condition variables, the once flag of the reaper, on
which threads `thrd_detach` has succeeded, and what joins have returned. -/
structure Joining (count : Nat) where
  thrds : Fin count → Thrd count
  place : Fin count → ThrdPlace count
  thrdsLock : Option (Fin count) := none
  sequence : Cnd count → Word := fun _ => 0
  reaperInitFlag : Word := 0
  detached : Fin count → Bool := fun _ => false
  joins : List (Fin count × ThrdStatus × Word) := []

inductive ThrdCall (count : Nat) where
  | thrdJoin (target : Fin count)
  | thrdDetach (target : Fin count)
  | thrdExit (result : Word)

/-- A creation that succeeds, the begin of a call, the next step of a thread, and a wait that ends with a
status without a wake: by `scheduler_resume`, by an expiry, or after `scheduler_suspend`. -/
inductive JoiningAction (count : Nat) where
  | create (thread target : Fin count)
  | call (thread : Fin count) (call : ThrdCall count)
  | act (thread : Fin count)
  | returns (thread : Fin count) (status : Result)

namespace Joining

variable {count : Nat}

def goes (state : Joining count) (self : Fin count) (place : ThrdPlace count) : Joining count :=
  { state with place := Function.update state.place self place }

def setThrd (state : Joining count) (target : Fin count) (thrd : Thrd count) : Joining count :=
  { state with thrds := Function.update state.thrds target thrd }

def unlock (state : Joining count) (self : Fin count) : Joining count :=
  { state with thrdsLock := if state.thrdsLock = some self then none else state.thrdsLock }

/-- `_thrd_create`, with the lock of the list held in between. -/
def created (state : Joining count) (target : Fin count) (place : ThrdPlace count) : Joining count :=
  (state.setThrd target { linked := true }).goes target place

/-- A step of `_cnd_wait`, in a caller that goes on from it as told. -/
def advanceCnd (state : Joining count) (self : Fin count) (cnd : Cnd count)
    (resume : CndPlace ⊕ ThrdStatus → ThrdPlace count) : CndPlace → Option (Joining count)
  | .sequence => some (state.goes self (resume (.inl (.unlock (state.sequence cnd)))))
  | .unlock sequence => some ((state.unlock self).goes self (resume (.inl (.futexWait sequence))))
  | .futexWait sequence => some (state.goes self (resume (.inl
      (if state.sequence cnd = sequence then .blocked else .lock (.value 0)))))
  | .blocked => none
  | .lock status =>
      if state.thrdsLock = none then
        some { state.goes self (resume (.inr (cndStatus status))) with thrdsLock := some self }
      -- a second lock by the owner fails, and nobody looks at that
      else if state.thrdsLock = some self then
        some (state.goes self (resume (.inr (cndStatus status))))
      else none

def resumeJoin (target : Fin count) : CndPlace ⊕ ThrdStatus → ThrdPlace count
  | .inl place => .join target (.wait place)
  | .inr .thrdSuccess => .join target .terminated
  | .inr status => .join target (.remove status)

def resumeReap : CndPlace ⊕ ThrdStatus → ThrdPlace count
  | .inl place => .reap (.wait place)
  | .inr .thrdSuccess => .reap (.scan 0)
  | .inr _ => .reap .aborted

def advanceJoin (state : Joining count) (self target : Fin count) : JoinPlace → Option (Joining count)
  | .lock =>
      if state.thrdsLock = none then
        some { state.goes self (.join target .detached) with thrdsLock := some self }
      else if state.thrdsLock = some self then some (state.goes self (.join target .aborted))
      else none
  | .detached =>
      some (state.goes self (.join target (if (state.thrds target).detached then .refuse else .joiner)))
  | .joiner =>
      some (state.goes self (.join target (if (state.thrds target).joiner ≠ none then .refuse else .mark)))
  | .refuse =>
      if state.thrdsLock = some self then
        some { (state.unlock self).goes self .running with
          joins := (target, .thrdError, 0) :: state.joins }
      else some (state.goes self (.join target .aborted))
  | .mark =>
      some ((state.setThrd target { state.thrds target with joiner := some self }).goes self
        (.join target .terminated))
  | .terminated =>
      some (state.goes self (.join target
        (if (state.thrds target).terminated then .remove .thrdSuccess else .wait .sequence)))
  | .wait place => state.advanceCnd self (.joiners target) (resumeJoin target) place
  | .remove status =>
      some ((state.setThrd target { state.thrds target with linked := false }).goes self
        (.join target (.unlock status)))
  | .unlock status =>
      some ((state.unlock self).goes self
        (.join target (if state.thrdsLock = some self then .result status else .aborted)))
  | .result status => some (state.goes self (.join target (.release status (state.thrds target).ret)))
  | .release status result =>
      some { (state.setThrd target
        { state.thrds target with released := (state.thrds target).released + 1 }).goes self .running with
          joins := (target, status, result) :: state.joins }
  | .aborted => none

/-- A step of `thrd_detach`; the futex of `call_once` is the caller's own, which nobody else wakes. -/
def advanceDetach (state : Joining count) (self : Fin count) (targets : List (Fin count)) :
    DetachPlace → Option (Joining count)
  | .load =>
      some (state.goes self (.detach (if state.reaperInitFlag = 2 then .setFlags else .claim) targets))
  | .claim =>
      if state.reaperInitFlag = 0 then
        some { state.goes self (.detach .init targets) with reaperInitFlag := 1 }
      else some (state.goes self (.detach .exchange targets))
  | .exchange =>
      if state.reaperInitFlag = 2 then some (state.goes self (.detach .setFlags targets))
      else some (state.goes self (.detach (.wait state.reaperInitFlag) targets))
  | .wait value =>
      if state.reaperInitFlag = value then none else some (state.goes self (.detach .exchange targets))
  | .init =>
      some { state.goes self (.detach .create targets) with
        sequence := Function.update state.sequence .thrdsReap 0 }
  | .create => none
  | .setFlags =>
      match targets with
      | [] => none
      | target :: rest =>
          some { state.goes self (if rest = [] then .running else .detach .store rest) with
            detached := Function.update state.detached target true }
  | .store => some { state.goes self (.detach .wake targets) with reaperInitFlag := 2 }
  | .wake => some (state.goes self (.detach .setFlags targets))

def advanceFinish (state : Joining count) (self : Fin count) :
    FinishPlace count → Option (Joining count)
  | .ret result =>
      some ((state.setThrd self { state.thrds self with ret := result }).goes self (.finish .terminated))
  | .terminated =>
      some ((state.setThrd self { state.thrds self with terminated := true }).goes self
        (.finish .detached))
  | .detached =>
      some (state.goes self (.finish
        (.sequence (if (state.thrds self).detached then .thrdsReap else .joiners self))))
  | .sequence cnd =>
      some { state.goes self (.finish (.wake cnd)) with
        sequence := Function.update state.sequence cnd (state.sequence cnd + 1) }
  | .wake cnd =>
      some ({ state with place := fun other => (state.place other).woken cnd }.goes self .gone)

def advanceReap (state : Joining count) (self : Fin count) : ReapPlace → Option (Joining count)
  | .lock =>
      if state.thrdsLock = none then
        some { state.goes self (.reap (.wait .sequence)) with thrdsLock := some self }
      else none
  | .wait place => state.advanceCnd self .thrdsReap resumeReap place
  | .scan index =>
      if inside : index < count then
        let entry := state.thrds ⟨index, inside⟩
        if entry.linked ∧ entry.detached ∧ entry.terminated then
          some ((state.setThrd ⟨index, inside⟩
            { entry with linked := false, released := entry.released + 1 }).goes self
              (.reap (.scan (index + 1))))
        else some (state.goes self (.reap (.scan (index + 1))))
      else some (state.goes self (.reap (.wait .sequence)))
  | .aborted => none

def advance (state : Joining count) (self : Fin count) : Option (Joining count) :=
  match state.place self with
  | .unborn | .running | .gone => none
  | .join target place => state.advanceJoin self target place
  | .detach place targets => state.advanceDetach self targets place
  | .finish place => state.advanceFinish self place
  | .reap place => state.advanceReap self place

def broken (state : Joining count) (self : Fin count) (status : Result) : Option (Joining count) :=
  match state.place self with
  | .join target (.wait .blocked) => some (state.goes self (.join target (.wait (.lock status))))
  | .reap (.wait .blocked) => some (state.goes self (.reap (.wait (.lock status))))
  | .join target (.wait (.lock result)) =>
      -- the lock is not taken, and nobody looks at that
      if status.negative ∧ state.thrdsLock ≠ none then
        some (state.goes self (resumeJoin target (.inr (cndStatus result))))
      else none
  | .reap (.wait (.lock result)) =>
      if status.negative ∧ state.thrdsLock ≠ none then
        some (state.goes self (resumeReap (.inr (cndStatus result))))
      else none
  | .join target .lock =>
      if status.negative ∧ state.thrdsLock ≠ none then some (state.goes self (.join target .aborted))
      else none
  | .reap .lock =>
      if status.negative ∧ state.thrdsLock ≠ none then some (state.goes self (.reap .aborted))
      else none
  | .detach (.wait _) targets => some (state.goes self (.detach .exchange targets))
  | _ => none

def call (state : Joining count) (self : Fin count) : ThrdCall count → Option (Joining count)
  | .thrdJoin target =>
      if state.place target ≠ .unborn then some (state.goes self (.join target .lock)) else none
  | .thrdDetach target =>
      if state.place target ≠ .unborn then some (state.goes self (.detach .load [target])) else none
  | .thrdExit result => some (state.goes self (.finish (.ret result)))

def step (state : Joining count) : JoiningAction count → Option (Joining count)
  | .create thread target =>
      if state.place target = .unborn ∧ state.thrdsLock = none then
        match state.place thread with
        | .running => some (state.created target .running)
        | .detach .create targets =>
            some ((state.created target (.reap .lock)).goes thread (.detach .load (target :: targets)))
        | _ => none
      else none
  | .call thread call =>
      if state.place thread = .running then state.call thread call else none
  | .act thread => state.advance thread
  | .returns thread status => state.broken thread status

end Joining

abbrev joiningSystem (count : Nat) : System (Joining count) (JoiningAction count) where
  initial state := (∀ thread, state.place thread = .unborn ∧ state.thrds thread = {} ∨
      state.place thread ∈ [.running, .reap .lock] ∧ state.thrds thread = { linked := true }) ∧
    state.thrdsLock = none ∧ state.reaperInitFlag = 0 ∧ (∀ thread, state.detached thread = false) ∧
    state.joins = []
  step := Joining.step

end PicoToolkit
