import PicoToolkit.Cmsis.ReaperLoop

/-!
The deletion of event flags that count their waiters: it is refused only when a live thread waits, and the
event flags of a thread that has ended can be deleted.
-/

namespace PicoToolkit

open Transition Interleaving ThreadsState RtosThread

/-- The waiters are counted, the deletions have seen those that there were, and the reaper goes on. -/
structure WaitersExact (state : ThreadsState) : Prop where
  counts : state.Counts
  refused : ∀ delete ∈ state.deletes, delete.status = .osErrorResource → delete.waiting = true
  cleans : ∀ delete ∈ state.deletes, delete.cleans = true → delete.status = .osOK
  reaper : state.aborted ≠ some .reaper
  joiner : state.aborted ≠ some .osThreadJoin

def ThreadPlace.deletesJoiner : ThreadPlace → Option Nat
  | .clean thread .joiner _ => some thread
  | _ => none

/-- When the event flags for the joiners of a thread are deleted, no live thread waits for them. -/
def SparesJoiners (state : ThreadsState) : ThreadAction → Prop
  | .advance index _ => ∀ thread ∈ state.threads[index]?.bind fun own => own.place.deletesJoiner,
      state.waiting (.joiner thread) = 0
  | _ => True

def ThreadPlace.releasesMutexes : ThreadPlace → Option Nat
  | .clean thread .mutexes _ => some thread
  | _ => none

/-- When the robust mutexes of a thread are released, they fit the capture, and nobody else takes one of them
away at the same time. -/
def FreesMutexes (state : ThreadsState) : ThreadAction → Prop
  | .advance index answer => ∀ thread ∈ state.threads[index]?.bind fun own => own.place.releasesMutexes,
      state.fitsCapture thread = true ∧ (state.contested index thread = true → answer.negative = false)
  | _ => True

/-- No task ends while its thread waits, no waiting joiner is left behind, the mutexes of ended threads are
released, no thread begins with the mark for the reaper, and the reaper is not told to exit. -/
structure CountedStep (state : ThreadsState) (action : ThreadAction) : Prop where
  waiters : SparesWaiters state action
  joiners : SparesJoiners state action
  mutexes : FreesMutexes state action
  unmarked : NewUnmarked action
  reaper : SparesReaper state action

def Aborter.cleans : Aborter → Prop
  | .reaper | .osThreadJoin => True
  | _ => False

structure Deletes (state next : ThreadsState) : Prop where
  deletes : ∃ new : List FlagsDelete, next.deletes = state.deletes ++ new ∧ ∀ delete ∈ new,
    (delete.status = .osErrorResource → delete.waiting = true) ∧
      (delete.cleans = true → delete.status = .osOK)
  goesOn : ∀ aborter : Aborter, aborter.cleans → next.aborted = some aborter → state.aborted = some aborter

section Deletes

variable {state middle next : ThreadsState} {index : Nat} {place : ThreadPlace} {own : RtosThread}
  {object : EventObject}

theorem deletes_of_eq (deletes : next.deletes = state.deletes)
    (aborted : next.aborted = state.aborted) : Deletes state next :=
  ⟨⟨[], by rw [deletes, List.append_nil], List.forall_mem_nil _⟩, fun _ _ isNext => aborted ▸ isNext⟩

theorem Deletes.refl (state : ThreadsState) : Deletes state state := deletes_of_eq rfl rfl

theorem Deletes.trans (first : Deletes state middle) (second : Deletes middle next) :
    Deletes state next := by
  obtain ⟨some_, isMiddle, fine⟩ := first.deletes
  obtain ⟨more, isNext, fineMore⟩ := second.deletes
  refine ⟨⟨some_ ++ more, ?_, fun delete member => ?_⟩, fun aborter cleans aborted =>
    first.goesOn aborter cleans (second.goesOn aborter cleans aborted)⟩
  · rw [isNext, isMiddle, List.append_assoc]
  · rcases List.mem_append.mp member with early | late
    · exact fine delete early
    · exact fineMore delete late

theorem Deletes.move (first : Deletes state next) : Deletes state (next.move index place) :=
  first.trans (deletes_of_eq rfl rfl)

theorem deletes_abort {aborter : Aborter} (other : ¬aborter.cleans) :
    Deletes state (state.abort aborter) :=
  ⟨(Deletes.refl state).deletes, fun _ cleans same =>
    (other (Option.some_inj.mp same ▸ cleans)).elim⟩

theorem deletes_setOrAbort (flags : Word) (wakeStatus : Result) :
    Deletes state (state.setOrAbort object flags wakeStatus) := by
  have sets : Deletes state (state.setFlags object flags) := deletes_of_eq rfl rfl
  rw [setOrAbort]
  split
  · exact sets.trans (deletes_abort id)
  · exact sets

theorem deletes_endTask (thread : RtosThread) (wakeStatus : Result) :
    Deletes state (state.endTask index thread wakeStatus) := by
  have ends : Deletes state (state.change index RtosThread.endTask) := deletes_of_eq rfl rfl
  have marks : Deletes state ((state.change index RtosThread.endTask).change index
      RtosThread.markReap) := deletes_of_eq rfl rfl
  rw [ThreadsState.endTask]
  split
  · exact ends.trans (deletes_setOrAbort _ _)
  · refine marks.trans ?_
    rw [kickReaper]
    split
    · exact deletes_abort id
    · split
      · exact deletes_setOrAbort _ _
      · exact deletes_abort id

theorem deletes_ensureReaper : Deletes state state.ensureReaper := by
  rw [ensureReaper]
  split
  · exact .refl state
  · exact deletes_of_eq rfl rfl

theorem deletes_ensureFor (thread : RtosThread) : Deletes state (ensureFor thread state) := by
  rw [ensureFor]
  split
  · exact .refl state
  · exact deletes_ensureReaper

theorem deletes_osThreadExit : Deletes state (osThreadExit index own state) := by
  rw [osThreadExit]
  split
  · exact (deletes_ensureFor own).move
  · exact deletes_abort id

/-- Event flags whose waiters are counted cannot be deleted just when a thread waits for them. -/
theorem osEventFlagsDelete_of_counts (counts : state.Counts) (object : EventObject) :
    (osEventFlagsDelete someFlags (state.words object someFlags.waiters) = .osErrorResource →
      0 < state.waiting object) ∧
    (state.waiting object = 0 →
      osEventFlagsDelete someFlags (state.words object someFlags.waiters) = .osOK) := by
  have isCount : state.words object someFlags.waiters = BitVec.ofNat 32 (state.waiting object) :=
    counts object
  rw [isCount]
  constructor
  · intro refused
    by_contra none_
    rw [Nat.eq_zero_of_not_pos none_] at refused
    cases refused
  · intro none_
    rw [none_]
    rfl

theorem deletes_recordDelete (counts : state.Counts) (object : EventObject) {cleans : Bool}
    (none_ : cleans = true → state.waiting object = 0) :
    Deletes state (state.recordDelete object cleans) := by
  obtain ⟨refused, allowed⟩ := osEventFlagsDelete_of_counts counts object
  refine ⟨⟨_, rfl, fun delete member => ?_⟩, fun _ _ => id⟩
  obtain rfl := List.mem_singleton.mp member
  exact ⟨fun isRefused => decide_eq_true (refused isRefused), fun isClean => allowed (none_ isClean)⟩

theorem Life.waiting_flags (life : Life state) {thread : Nat} (ended : state.Has thread RtosThread.Ended) :
    state.waiting (.flags thread) = 0 := by
  rw [waiting, List.countP_eq_zero]
  intro waiter member
  obtain ⟨index, found⟩ := List.mem_iff_getElem?.mp member
  have may := (life.threads index waiter found).place
  rw [decide_eq_true_iff, RtosThread.waitsFor]
  split
  · intro same
    cases same
  · rename_i live
    intro waits
    cases isPlace : waiter.place with
    | wait object wish timeout place after =>
        rw [isPlace] at may waits
        rw [ThreadPlace.waitsFor] at waits
        split at waits
        · obtain rfl := may.1 thread (Option.some_inj.mp waits)
          exact live (ended.of_found found)
        · cases waits
    | _ =>
        rw [isPlace] at waits
        cases waits

theorem deletes_cleanDelete (counts : state.Counts) {thread : Nat} (part : CleanPart)
    (cleaner : Cleaner) (none_ : state.waiting object = 0) :
    Deletes state (cleanDelete index thread object part cleaner state) := by
  obtain ⟨_, allowed⟩ := osEventFlagsDelete_of_counts counts object
  unfold cleanDelete
  rw [if_pos (allowed none_)]
  exact (deletes_recordDelete counts object fun _ => none_).move

theorem deletes_cleanMutexes {thread : Nat} (cleaner : Cleaner) {answer : Result}
    (fits : state.fitsCapture thread = true)
    (alone : state.contested index thread = true → answer.negative = false) :
    Deletes state (cleanMutexes index thread cleaner answer state) := by
  have released : ¬((state.contested index thread = true) ∧ answer.negative = true) := fun both =>
    Bool.false_ne_true ((alone both.1).symm.trans both.2)
  unfold cleanMutexes
  rw [if_pos fits, if_neg released]
  exact deletes_of_eq rfl rfl

theorem deletes_reaperDone {flags : Word} (noExit : flags &&& rtosReaperExit = 0) :
    Deletes state (reaperDone flags index state) := by
  rw [reaperDone, if_neg (not_not.mpr noExit)]
  exact (Deletes.refl state).move

theorem deletes_afterWait (loops : Loops true state) (life : Life state)
    (found : state.threads[index]? = some own) {wish : FlagsWish} {timeout value : Word}
    {after : AfterWait} (isPlace : own.place = .wait object wish timeout (.inr (some value)) after) :
    Deletes state (afterWait index value state after) := by
  cases after with
  | leave => exact (Deletes.refl state).move
  | join thread => exact (Deletes.refl state).move
  | reap =>
      have may := (life.threads index own found).place
      rw [isPlace] at may
      have inLoop := (loops index may.2.1).2.of_found found
      rw [isPlace] at inLoop
      have noFlags : value &&& forbidden true = 0 := by
        rcases inLoop.2.2.2.2 with ⟨_, isCalm⟩ | ⟨noFlags, _⟩
        · cases isCalm
        · exact noFlags
      obtain ⟨noError, noExit⟩ := and_forbidden noFlags
      rw [afterWait, if_neg (not_not.mpr noError)]
      split
      · exact (Deletes.refl state).move
      · exact deletes_reaperDone (noExit rfl)

theorem deletes_waitStep {wish : FlagsWish} {timeout : Word} {after : AfterWait} {place : WaitPlace wish}
    {answer : Result}
    (moved : waitStep index object wish timeout after place answer state = some next) :
    Deletes state next := by
  cases place with
  | _ =>
      obtain rfl := Option.some_inj.mp moved
      exact deletes_of_eq rfl rfl

theorem deletes_threadStep (life : Life state) (counts : state.Counts) (loops : Loops true state)
    (found : state.threads[index]? = some own)
    (joiners : ∀ thread cleaner, own.place = .clean thread .joiner cleaner →
      state.waiting (.joiner thread) = 0) {answer : Result}
    (mutexes : ∀ thread cleaner, own.place = .clean thread .mutexes cleaner →
      state.fitsCapture thread = true ∧ (state.contested index thread = true → answer.negative = false))
    (moved : threadStep index answer own state = some next) : Deletes state next := by
  have may := (life.threads index own found).place
  have same := Deletes.refl state
  cases threadMoves moved with
  | wait _ moved => exact deletes_waitStep moved
  | exit _ => exact deletes_osThreadExit
  | afterWait isPlace => exact deletes_afterWait loops life found isPlace
  | @delete object _ =>
      exact (@deletes_recordDelete state counts object false fun same => by cases same).move
  | @clean thread part cleaner isPlace =>
      rw [isPlace] at may
      cases part with
      | mutexes =>
          obtain ⟨fits, alone⟩ := mutexes thread cleaner isPlace
          exact deletes_cleanMutexes cleaner fits alone
      | joiner => exact deletes_cleanDelete counts .flags cleaner (joiners thread cleaner isPlace)
      | flags =>
          refine deletes_cleanDelete counts .clear cleaner (life.waiting_flags ?_)
          cases cleaner with
          | joiner => exact Has.imp may fun _ joined => joined.1.1
          | reaper flags => exact may.2.imp fun _ reaped => reaped.1.1
      | clear =>
          cases cleaner with
          | joiner => exact deletes_of_eq rfl rfl
          | reaper flags => exact deletes_of_eq rfl rfl
  | terminated _ _ _ | ended _ | detached _ _ _ | popped _ _ => exact same.move
  | terminate _ _ _ => exact (deletes_endTask _ answer).move
  | remove _ | detach _ | mark _ _ _ _ | kick _ _ _ _ | collect _ _ | pop _ _ =>
      exact deletes_of_eq rfl rfl
  | invalid isPlace isInvalid =>
      obtain ⟨thread, member, isInvalid⟩ := List.any_eq_true.mp isInvalid
      rw [Bool.and_eq_true, Bool.not_eq_true'] at isInvalid
      obtain ⟨other, isThread⟩ := List.mem_iff_getElem?.mp member
      have gone := (life.threads other thread isThread).invalid isInvalid.2
      cases gone.2.symm.trans isInvalid.1
  | reaped isPlace _ =>
      rw [isPlace] at may
      have inLoop := (loops index may).2.of_found found
      rw [isPlace] at inLoop
      exact deletes_reaperDone ((and_forbidden inLoop).2 rfl)

theorem deletes_beginRequest (request : ThreadRequest) :
    Deletes state (beginRequest index own state request) := by
  have same := Deletes.refl state
  cases request with
  | osEventFlagsWait address wish timeout => exact same.move
  | osEventFlagsDelete address => exact same.move
  | osThreadFlagsWait wish timeout =>
      rw [beginRequest]
      split
      · exact same.move
      · exact same
  | osThreadFlagsClear flags =>
      rw [beginRequest]
      split
      · exact deletes_of_eq rfl rfl
      · exact same
  | osThreadJoin thread =>
      rw [beginRequest]
      split
      · exact same.move
      · exact same
  | osThreadDetach thread =>
      rw [beginRequest]
      split
      · exact deletes_ensureReaper.move
      · exact same
  | osThreadTerminate thread =>
      rw [beginRequest]
      split
      · exact same
      · split
        · exact (deletes_ensureFor _).move
        · exact same
  | osThreadExit => exact deletes_osThreadExit

theorem deletes_step (life : Life state) (counts : state.Counts) (loops : Loops true state)
    {action : ThreadAction} (joiners : SparesJoiners state action) (mutexes : FreesMutexes state action)
    (moved : state.step action = some next) : Deletes state next := by
  cases threadSteps moved with
  | request request _ _ _ => exact deletes_beginRequest request
  | advance found _ isNext =>
      refine deletes_threadStep life counts loops found ?_ ?_ isNext
      · intro thread cleaner isPlace
        refine joiners thread ?_
        rw [found, Option.bind_some, isPlace]
        rfl
      · intro thread cleaner isPlace
        refine mutexes thread ?_
        rw [found, Option.bind_some, isPlace]
        rfl
  | evict wakeStatus _ _ => exact deletes_endTask _ wakeStatus
  | osThreadNew _ | schedule _ _ _ | osEventFlagsSet _ | osEventFlagsClear _ | osThreadFlagsSet _ _
  | robustMutexes _ => exact deletes_of_eq rfl rfl

end Deletes

section Runs

instance (state : ThreadsState) : (action : ThreadAction) → Decidable (SparesWaiters state action)
  | .advance _ _ => inferInstanceAs (Decidable (∀ thread ∈ (_ : Option Nat), _))
  | .evict _ _ => inferInstanceAs (Decidable (_ = none))
  | .osThreadNew _ | .request _ _ | .schedule _ _ | .osEventFlagsSet _ _ | .osEventFlagsClear _ _
  | .osThreadFlagsSet _ _ | .robustMutexes _ => isTrue trivial

instance (state : ThreadsState) : (action : ThreadAction) → Decidable (SparesJoiners state action)
  | .advance _ _ => inferInstanceAs (Decidable (∀ thread ∈ (_ : Option Nat), _))
  | .evict _ _ | .osThreadNew _ | .request _ _ | .schedule _ _ | .osEventFlagsSet _ _
  | .osEventFlagsClear _ _ | .osThreadFlagsSet _ _ | .robustMutexes _ => isTrue trivial

instance (state : ThreadsState) : (action : ThreadAction) → Decidable (FreesMutexes state action)
  | .advance _ _ => inferInstanceAs (Decidable (∀ thread ∈ (_ : Option Nat), _))
  | .evict _ _ | .osThreadNew _ | .request _ _ | .schedule _ _ | .osEventFlagsSet _ _
  | .osEventFlagsClear _ _ | .osThreadFlagsSet _ _ | .robustMutexes _ => isTrue trivial

instance : (action : ThreadAction) → Decidable (NewUnmarked action)
  | .osThreadNew attrBits => inferInstanceAs (Decidable (attrBits &&& osReapThread = 0))
  | .advance _ _ | .evict _ _ | .request _ _ | .schedule _ _ | .osEventFlagsSet _ _
  | .osEventFlagsClear _ _ | .osThreadFlagsSet _ _ | .robustMutexes _ => isTrue trivial

instance (state : ThreadsState) : (action : ThreadAction) → Decidable (SparesReaper state action)
  | .advance index answer =>
      inferInstanceAs (Decidable (state.reaper = some index → answer.negative = false))
  | .osThreadFlagsSet thread flags =>
      inferInstanceAs (Decidable (state.reaper = some thread → flags &&& rtosReaperExit = 0))
  | .osThreadNew _ | .evict _ _ | .request _ _ | .schedule _ _ | .osEventFlagsSet _ _
  | .osEventFlagsClear _ _ | .robustMutexes _ => isTrue trivial

instance (state : ThreadsState) (action : ThreadAction) : Decidable (CountedStep state action) :=
  decidable_of_iff (SparesWaiters state action ∧ SparesJoiners state action ∧ FreesMutexes state action ∧
      NewUnmarked action ∧ SparesReaper state action)
    ⟨fun ⟨waiters, joiners, mutexes, unmarked, reaper⟩ => ⟨waiters, joiners, mutexes, unmarked, reaper⟩,
      fun counted => ⟨counted.waiters, counted.joiners, counted.mutexes, counted.unmarked,
        counted.reaper⟩⟩

def firstThread : ThreadsState where
  words := fun _ _ => 0
  threads := [RtosThread.new 0]
  robust := []
  reaper := none
  reapList := []
  aborted := none
  deletes := []
  reclaims := []
  released := []

theorem initial_firstThread : threadsSystem.initial firstThread :=
  ⟨⟨0, rfl, rfl⟩, rfl, rfl, rfl, rfl, rfl, rfl, rfl, rfl⟩

def advances (count index : Nat) : List ThreadAction := List.replicate count (.advance index (.value 0))

/-- A thread that owns two robust mutexes and whose wait has timed out exits and is reaped, and another exits
and is joined. -/
def countedRun : List ThreadAction :=
  [ThreadAction.osThreadNew 0, .osThreadNew osThreadJoinable, .robustMutexes [some 1, none, some 1],
    .request 1 (.osEventFlagsWait 0x500 ⟨1, 0⟩ 7)] ++ advances 2 1 ++
    [ThreadAction.advance 1 (.error .etimedout)] ++ advances 2 1 ++
    [ThreadAction.request 1 .osThreadExit] ++ advances 1 1 ++ advances 11 3 ++
    [ThreadAction.request 2 .osThreadExit] ++ advances 1 2 ++
    [ThreadAction.request 0 (.osThreadJoin 2)] ++ advances 10 0

/-- A thread that waits for its flags is terminated, and the reaper tries to delete them. -/
def terminatedRun : List ThreadAction :=
  [ThreadAction.osThreadNew 0, .request 1 (.osThreadFlagsWait ⟨1, 0⟩ osWaitForever)] ++ advances 2 1 ++
    [ThreadAction.request 0 (.osThreadTerminate 1)] ++ advances 1 0 ++ advances 10 2

end Runs

end PicoToolkit
