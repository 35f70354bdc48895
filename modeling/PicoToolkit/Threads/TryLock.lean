import PicoToolkit.Scheduler.WellPlaced
import PicoToolkit.Threads.Mutex

/-!
Calls that run alone: what a call of `mtx_lock` and a call of `mtx_trylock` do in the same state, up to
the first wait.
-/

namespace PicoToolkit

open Ring Transition Interleaving Tag

variable {Place Return : Type}

/-- Run a call while nothing else does, for at most some steps: the memory that it leaves, and what it
returns or the wait that it comes to.  Other requests are served from outside. -/
def runAlone (serve : Request → (Word → Word) → Option (Result × (Word → Word)))
    (op : Place → ThreadOp Unit (Place ⊕ Return)) :
    Nat → Place → (Word → Word) → Option ((Word → Word) × (Return ⊕ Request))
  | 0, _, _ => none
  | fuel + 1, place, memory =>
      let proceed next memory :=
        match next with
        | .inl place => runAlone serve op fuel place memory
        | .inr result => some (memory, .inl result)
      match op place with
      | .word address act =>
          proceed (act (memory address)).2 (Function.update memory address (act (memory address)).1)
      | .data act => proceed (act ()).2 memory
      | .service request resume =>
          match serve request memory with
          | none => some (memory, .inr request)
          | some (answer, memory) => proceed (resume answer) memory

def serveNone : Request → (Word → Word) → Option (Result × (Word → Word)) := fun _ _ => none

inductive TryStatus where
  | thrdSuccess
  | thrdBusy
  deriving DecidableEq

/-- The test for the own task, the increment of the count, the compare-exchange and the first count. -/
inductive TryPlace where
  | owned
  | again
  | exchange
  | first
  deriving DecidableEq

def mtxTrylock (mtx : Mtx) (self : Word) :
    TryPlace → ThreadOp Unit (TryPlace ⊕ TryStatus × Option Errno)
  | .owned => .word mtx.value fun value =>
      (value, if mtx.recursive ∧ value = self then .inl .again else .inl .exchange)
  | .again => .word mtx.count fun count => (count + 1, .inr (.thrdSuccess, none))
  | .exchange => .word mtx.value fun value =>
      if value = 0 then (self, if mtx.recursive then .inl .first else .inr (.thrdSuccess, none))
      else (value, .inr (.thrdBusy, some .ebusy))
  | .first => .word mtx.count fun _ => (1, .inr (.thrdSuccess, none))

def lockAlone (mtx : Mtx) (self : Word) (memory : Word → Word) :
    Option ((Word → Word) × (ThrdReturn ⊕ Request)) :=
  runAlone serveNone (mtxLock mtx self) 3 .owned memory

def trylockAlone (mtx : Mtx) (self : Word) (memory : Word → Word) :
    Option ((Word → Word) × (TryStatus × Option Errno ⊕ Request)) :=
  runAlone serveNone (mtxTrylock mtx self) 3 .owned memory

/-- The memory after `mtx_lock` if it succeeds without a wait. -/
def locked (mtx : Mtx) (self : Word) (memory : Word → Word) : Option (Word → Word) :=
  match lockAlone mtx self memory with
  | some (after, .inl (.thrdSuccess, _)) => some after
  | _ => none

/-- `mtx_trylock` succeeds exactly if `mtx_lock` does without a wait, and then both leave the same memory;
otherwise it leaves the memory as it was. -/
def TrylockAgrees (mtx : Mtx) (self : Word) (memory : Word → Word) : Prop :=
  ∃ status errno after, trylockAlone mtx self memory = some (after, .inl (status, errno)) ∧
    (status = .thrdSuccess → locked mtx self memory = some after) ∧
    (status ≠ .thrdSuccess → locked mtx self memory = none ∧ after = memory)

section Spec

variable {mtx : Mtx} {self : Word} {memory : Word → Word}

def takenBy (mtx : Mtx) (self : Word) (memory : Word → Word) : Word → Word :=
  let memory := Function.update memory mtx.value self
  if mtx.recursive then Function.update memory mtx.count 1 else memory

def takenAgain (mtx : Mtx) (memory : Word → Word) : Word → Word :=
  Function.update memory mtx.count (memory mtx.count + 1)

/-- What `_mtx_lock` comes to by itself: it returns, or waits for the owner. -/
theorem lockFor_eq (msec : Word) :
    runAlone serveNone (mtxLockFor mtx self msec) 3 .owned memory =
      if self = untag (memory mtx.value) then
        if mtx.recursive then some (takenAgain mtx memory, .inl (.thrdSuccess, none))
        else some (memory, .inl (.thrdError, some (.error .einval)))
      else if memory mtx.value = 0 then
        some (takenBy mtx self memory, .inl (.thrdSuccess, none))
      else some (memory, .inr (.wait mtx.futex (memory mtx.value) msec)) := by
  have same : Function.update memory mtx.value (memory mtx.value) = memory :=
    Function.update_eq_self _ _
  by_cases own : self = untag (memory mtx.value)
  · cases recursive : mtx.recursive <;>
      simp only [mtxLockFor, runAlone, lockLoop, Op.map, ← own, same, if_true, if_false, Sum.map_inl,
        Sum.map_inr, id_eq, recursive, takenAgain, LockEnd.thrd, Bool.false_eq_true]
  · by_cases free : memory mtx.value = 0
    · cases recursive : mtx.recursive <;>
        simp only [mtxLockFor, runAlone, lockLoop, Op.map, if_neg own, same, if_pos free, Sum.map_inl,
          Sum.map_inr, id_eq, LockWords.taken, recursive, takenBy, LockEnd.thrd, if_true, if_false,
          Bool.false_eq_true]
    · simp only [mtxLockFor, runAlone, lockLoop, Op.map, if_neg own, same, if_neg free, Sum.map_inl,
        id_eq, serveNone, Bool.false_eq_true, false_and, if_false]

theorem trylockAlone_eq :
    trylockAlone mtx self memory =
      if mtx.recursive = true ∧ memory mtx.value = self then
        some (takenAgain mtx memory, .inl (.thrdSuccess, none))
      else if memory mtx.value = 0 then
        some (takenBy mtx self memory, .inl (.thrdSuccess, none))
      else some (memory, .inl (.thrdBusy, some .ebusy)) := by
  have same : Function.update memory mtx.value (memory mtx.value) = memory :=
    Function.update_eq_self _ _
  by_cases own : mtx.recursive = true ∧ memory mtx.value = self
  · simp only [trylockAlone, runAlone, mtxTrylock, if_pos own, same, takenAgain]
  · by_cases free : memory mtx.value = 0
    · simp only [trylockAlone, runAlone, mtxTrylock, if_neg own, same, if_pos free, takenBy]
      cases mtx.recursive <;> rfl
    · simp only [trylockAlone, runAlone, mtxTrylock, if_neg own, same, if_neg free]

theorem lockFor_free {msec : Word} (nonzero : self ≠ 0) (free : memory mtx.value = 0) :
    runAlone serveNone (mtxLockFor mtx self msec) 3 .owned memory =
      some (takenBy mtx self memory, .inl (.thrdSuccess, none)) := by
  have other : ¬self = untag (memory mtx.value) := by
    rw [free, untagged_zero]
    exact nonzero
  rw [lockFor_eq, if_neg other, if_pos free]

theorem lockFor_held {msec : Word} (held : memory mtx.value ≠ 0)
    (other : untag (memory mtx.value) ≠ self) :
    runAlone serveNone (mtxLockFor mtx self msec) 3 .owned memory =
      some (memory, .inr (.wait mtx.futex (memory mtx.value) msec)) := by
  rw [lockFor_eq, if_neg (Ne.symm other), if_neg held]

theorem lockAlone_eq :
    lockAlone mtx self memory =
      runAlone serveNone (mtxLockFor mtx self schedulerWaitForever) 3 .owned memory :=
  rfl

theorem locked_free (nonzero : self ≠ 0) (free : memory mtx.value = 0) :
    locked mtx self memory = some (takenBy mtx self memory) := by
  rw [locked, lockAlone_eq, lockFor_free nonzero free]

/-- `mtx_lock` takes a mutex again whose word is the own task, with the contention bit or without. -/
theorem locked_own (recursive : mtx.recursive = true) (own : self = untag (memory mtx.value)) :
    locked mtx self memory = some (takenAgain mtx memory) := by
  rw [locked, lockAlone_eq, lockFor_eq, if_pos own, if_pos recursive]

theorem locked_held (held : memory mtx.value ≠ 0)
    (other : ¬(mtx.recursive = true ∧ self = untag (memory mtx.value))) :
    locked mtx self memory = none := by
  by_cases own : self = untag (memory mtx.value)
  · have plain : ¬mtx.recursive = true := fun recursive => other ⟨recursive, own⟩
    rw [locked, lockAlone_eq, lockFor_eq, if_pos own, if_neg plain]
  · rw [locked, lockAlone_eq, lockFor_held held (Ne.symm own)]

theorem trylockAlone_free (nonzero : self ≠ 0) (free : memory mtx.value = 0) :
    trylockAlone mtx self memory = some (takenBy mtx self memory, .inl (.thrdSuccess, none)) := by
  have other : ¬(mtx.recursive = true ∧ memory mtx.value = self) := by
    rintro ⟨_, own⟩
    exact nonzero (own.symm.trans free)
  rw [trylockAlone_eq, if_neg other, if_pos free]

theorem trylockAlone_own (recursive : mtx.recursive = true) (own : memory mtx.value = self) :
    trylockAlone mtx self memory = some (takenAgain mtx memory, .inl (.thrdSuccess, none)) := by
  rw [trylockAlone_eq, if_pos ⟨recursive, own⟩]

theorem trylockAlone_held (held : memory mtx.value ≠ 0)
    (other : ¬(mtx.recursive = true ∧ memory mtx.value = self)) :
    trylockAlone mtx self memory = some (memory, .inl (.thrdBusy, some .ebusy)) := by
  rw [trylockAlone_eq, if_neg other, if_neg held]

end Spec

/-- `mtx_trylock` agrees with `mtx_lock` in every state but those in which the caller owns a recursive mutex
that carries the contention bit. -/
theorem trylockAgrees_iff {mtx : Mtx} {self : Word} (nonzero : self ≠ 0) (untagged : Untagged self)
    (memory : Word → Word) :
    TrylockAgrees mtx self memory ↔ ¬(mtx.recursive = true ∧ memory mtx.value = tag self) := by
  by_cases free : memory mtx.value = 0
  · have uncontended : ¬memory mtx.value = tag self := by
      rw [free]
      exact (tag_ne_zero (by decide) self).symm
    refine iff_of_true ?_ fun contended => uncontended contended.2
    exact ⟨.thrdSuccess, none, _, trylockAlone_free nonzero free, fun _ => locked_free nonzero free,
      fun failed => absurd rfl failed⟩
  by_cases own : mtx.recursive = true ∧ self = untag (memory mtx.value)
  · obtain ⟨recursive, own⟩ := own
    rcases untag_or_tag (memory mtx.value) with plain | contended
    · have value : memory mtx.value = self := plain.trans own.symm
      have uncontended : ¬memory mtx.value = tag self := by
        rw [value]
        exact (tag_ne_of_untagged (by decide) untagged).symm
      refine iff_of_true ?_ fun both => uncontended both.2
      exact ⟨.thrdSuccess, none, _, trylockAlone_own recursive value,
        fun _ => locked_own recursive own, fun failed => absurd rfl failed⟩
    · have value : memory mtx.value = tag self := by rw [contended, own, tag_untag]
      have apart : ¬(mtx.recursive = true ∧ memory mtx.value = self) := by
        rintro ⟨_, same⟩
        exact tag_ne_of_untagged (by decide) untagged (value.symm.trans same)
      refine iff_of_false ?_ fun uncontended => uncontended ⟨recursive, value⟩
      rintro ⟨status, errno, after, tried, _, fails⟩
      rw [trylockAlone_held free apart, Option.some_inj, Prod.mk.injEq, Sum.inl.injEq,
        Prod.mk.injEq] at tried
      obtain ⟨_, rfl, _⟩ := tried
      have none := (fails (by decide)).1
      rw [locked_own recursive own] at none
      cases none
  · have apart : ¬(mtx.recursive = true ∧ memory mtx.value = self) := by
      rintro ⟨recursive, same⟩
      exact own ⟨recursive, by rw [same, untagged]⟩
    have uncontended : ¬(mtx.recursive = true ∧ memory mtx.value = tag self) := by
      rintro ⟨recursive, same⟩
      exact own ⟨recursive, by rw [same, untag_tag, untagged]⟩
    refine iff_of_true ?_ uncontended
    exact ⟨.thrdBusy, some .ebusy, memory, trylockAlone_held free apart,
      fun succeeds => absurd succeeds (by decide), fun _ => ⟨locked_held free own, rfl⟩⟩

def recursiveMtx : Mtx where
  value := 0x104
  count := 0x10c
  futex := 0x100
  recursive := true

theorem trylockAgrees_iff_uncontended :
    TrylockAgrees recursiveMtx 0x1000 fun address => if address = 0x104 then 0x1000 else 1 :=
  (trylockAgrees_iff (by decide) (by decide) _).mpr (by decide)

def contendedMutex : List (Action 1) :=
  [Action.create 0 0x1000 { flags := schedulerPrimordialTask, priority := 32 },
    .create 0 0x2000 { priority := 31 }, .start 0,
    .futexInit 0x100 0x104 (schedulerFutexContentionTracking ||| schedulerFutexOwnerTracking),
    .store 0x104 0x1000, .store 0x10c 1] ++ switchPass ++
    [Action.futexWait 0 0x100 0x1000 schedulerWaitForever] ++ switchPass

theorem not_trylockAgrees :
    ¬∀ (state : State Links 1) (self : Word) (mtx : Mtx), (scheduler 1).Reachable state →
      state.currentTask 0 = some self → (state.futex mtx.futex).value = mtx.value →
      TrylockAgrees mtx self state.memory := by
  intro claimed
  obtain ⟨state, reached, runs, guards, contended⟩ := System.exists_of_run (fun _ _ => True)
    (initial_bootState 1) contendedMutex
    (fun state => state.currentTask 0 = some 0x1000 ∧ (state.futex 0x100).value = 0x104 ∧
      state.memory 0x104 = 0x1001) (by decide)
  have own : (0x1000 : Word) = untag (state.memory recursiveMtx.value) := by
    change _ = untag (state.memory 0x104)
    rw [contended]
    decide
  obtain ⟨status, errno, after, tried, _, fails⟩ :=
    claimed state 0x1000 recursiveMtx reached runs guards
  have busy : trylockAlone recursiveMtx 0x1000 state.memory =
      some (state.memory, .inl (.thrdBusy, some .ebusy)) := by
    refine trylockAlone_held ?_ ?_ <;> change ¬_ <;>
      simp only [recursiveMtx, contended] <;> decide
  rw [busy, Option.some_inj, Prod.mk.injEq, Sum.inl.injEq, Prod.mk.injEq] at tried
  obtain ⟨_, rfl, _⟩ := tried
  have none := (fails (by decide)).1
  rw [locked_own rfl own] at none
  cases none

end PicoToolkit
