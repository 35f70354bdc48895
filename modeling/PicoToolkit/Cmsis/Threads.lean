import PicoToolkit.Cmsis.EventFlags

/-!
The threads of the CMSIS-RTOS2 layer, from their creation until their control blocks are given back: their
waits for event flags, `osThreadJoin`, `osThreadDetach`, `osThreadTerminate`, `osThreadExit`, and the reaper.
When a thread runs, and what its waits and wakes return, is up to the scheduler: both may be any.  Of the
robust mutexes there is only who owns them.
-/

namespace PicoToolkit

open Transition Interleaving

def rtosThreadMarker : Word := 0x42011024

def osThreadJoinable : Word := 0x00000001
def osReapThread : Word := 0x40000000

def rtosReaperExit : Word := 0x00000001
def rtosReaperClean : Word := 0x00000002
def rtosThreadJoined : Word := 0x40000000

inductive EventObject where
  | joiner (thread : Nat)
  | flags (thread : Nat)
  | other (address : Word)
  deriving DecidableEq

inductive AfterWait where
  | leave
  | join (thread : Nat)
  | reap
  deriving DecidableEq

/-- What a joiner and the reaper do with the control block of a thread that has ended. -/
inductive CleanPart where
  | mutexes
  | joiner
  | flags
  | clear
  deriving DecidableEq

inductive Cleaner where
  | joiner
  | reaper (flags : Word)

inductive ThreadPlace where
  | outside
  | wait (object : EventObject) (wish : FlagsWish) (timeout : Word)
      (place : WaitPlace wish ⊕ Option Word) (after : AfterWait)
  | delete (object : EventObject)
  | remove (thread : Nat)
  | clean (thread : Nat) (part : CleanPart) (cleaner : Cleaner)
  | terminate (thread : Nat)
  | ended (thread : Nat)
  | detach (thread : Nat)
  | detached (thread : Nat)
  | collect (flags : Word)
  | pop (flags : Word)

def ThreadPlace.about : ThreadPlace → Option Nat
  | .wait _ _ _ _ (.join thread) | .remove thread | .clean thread _ _ | .terminate thread
  | .ended thread | .detach thread | .detached thread => some thread
  | _ => none

def ThreadPlace.terminates : ThreadPlace → Option Nat
  | .terminate thread => some thread
  | _ => none

/-- `struct rtos_thread`, whether it is in the list of all threads, the state of its task, and where the
thread is; whether it was not joinable when its task ended is history. -/
structure RtosThread where
  marker : Word
  attrBits : Word
  registered : Bool
  state : TaskState
  place : ThreadPlace
  endedDetached : Bool

/-- A call of `osEventFlagsDelete`: what it has returned, whether a live thread has waited then, and
whether it was for the end of a thread. -/
structure FlagsDelete where
  object : EventObject
  status : OsStatus
  waiting : Bool
  cleans : Bool
  deriving DecidableEq

/-- The end of a control block: of which thread, whether by the reaper or a joiner, whether the thread was
joinable then, and whether another call worked on it. -/
structure Reclaim where
  thread : Nat
  byReaper : Bool
  joinable : Bool
  busy : Bool
  deriving DecidableEq

/-- Who aborts the program: the exit handler of tasks, the reaper, a joiner, or a thread that exits. -/
inductive Aborter where
  | exitHandler
  | reaper
  | osThreadJoin
  | osThreadExit
  deriving DecidableEq

/-- The words of all event flags, at the addresses that they have in `someFlags`, the threads, the owners of
the robust mutexes in the order of their list, the reaper if there is one, and its list, and who has aborted
the program.  The other fields are history: deletions of event flags, ends of control blocks, and those whose
memory has been released. -/
structure ThreadsState where
  words : EventObject → Word → Word
  threads : List RtosThread
  robust : List (Option Nat)
  reaper : Option Nat
  reapList : List Nat
  aborted : Option Aborter
  deletes : List FlagsDelete
  reclaims : List Reclaim
  released : List Nat

def WaitPlace.counted {wish : FlagsWish} : WaitPlace wish ⊕ Option Word → Bool
  | .inl .load | .inl (.leave _) | .inl (.wait _) => true
  | _ => false

def ThreadPlace.waitsFor : ThreadPlace → Option EventObject
  | .wait object _ _ place _ => if WaitPlace.counted place then some object else none
  | _ => none

def RtosThread.waitsFor (thread : RtosThread) : Option EventObject :=
  if thread.state = .terminated then none else thread.place.waitsFor

inductive OsThreadState where
  | osThreadAlive
  | osThreadTerminated
  | osThreadError
  deriving DecidableEq

def RtosThread.valid (thread : RtosThread) : Bool :=
  osIsResourceValid thread.marker rtosThreadMarker = .osOK

def osThreadGetState (thread : RtosThread) : OsThreadState :=
  if !thread.valid then .osThreadError
  else if thread.attrBits &&& osReapThread ≠ 0 then .osThreadError
  else if thread.state = .terminated then .osThreadTerminated
  else .osThreadAlive

/-- The status of `osEventFlagsDelete` in a thread, where the removal from the list of all event flags
succeeds. -/
def osEventFlagsDelete (eventflags : RtosEventflags) (waiters : Word) : OsStatus :=
  if osIsResourceValid eventflags.marker rtosEventflagsMarker ≠ .osOK then
    osIsResourceValid eventflags.marker rtosEventflagsMarker
  else if 0 < waiters.toInt then .osErrorResource
  else .osOK

def joinWish : FlagsWish := ⟨rtosThreadJoined, 0⟩

def reaperWish : FlagsWish := ⟨rtosReaperExit ||| rtosReaperClean, 0⟩

def waitFor (object : EventObject) (wish : FlagsWish) (timeout : Word) (after : AfterWait) : ThreadPlace :=
  .wait object wish timeout (osEventFlagsWaitStart someFlags wish timeout .thread) after

namespace RtosThread

def joinable (thread : RtosThread) : Bool := decide (thread.attrBits &&& osThreadJoinable ≠ 0)

def reapable (thread : RtosThread) : Bool :=
  thread.registered && decide (thread.attrBits &&& osReapThread ≠ 0)

def markReap (thread : RtosThread) : RtosThread :=
  { thread with attrBits := thread.attrBits ||| osReapThread }

def detach (thread : RtosThread) : RtosThread :=
  { thread with attrBits := thread.attrBits &&& ~~~osThreadJoinable }

def endTask (thread : RtosThread) : RtosThread :=
  { thread with state := .terminated, endedDetached := !thread.joinable }

def unregister (thread : RtosThread) : RtosThread := { thread with registered := false }

def clearMarker (thread : RtosThread) : RtosThread := { thread with marker := 0 }

def new (attrBits : Word) : RtosThread where
  marker := rtosThreadMarker
  attrBits := attrBits
  registered := true
  state := .ready
  place := .outside
  endedDetached := false

end RtosThread

namespace ThreadsState

variable (state : ThreadsState)

def waiting (object : EventObject) : Nat :=
  state.threads.countP fun thread => thread.waitsFor = some object

def change (index : Nat) (update : RtosThread → RtosThread) : ThreadsState :=
  { state with threads := state.threads.modify index update }

def move (index : Nat) (place : ThreadPlace) : ThreadsState :=
  state.change index fun thread => { thread with place := place }

def setWord (object : EventObject) (address value : Word) : ThreadsState :=
  { state with
    words := Function.update state.words object (Function.update (state.words object) address value) }

/-- `atomic_fetch_or` on the flags of `osEventFlagsSet` -/
def setFlags (object : EventObject) (flags : Word) : ThreadsState :=
  state.setWord object someFlags.flags (state.words object someFlags.flags ||| flags)

def clearFlags (object : EventObject) (flags : Word) : ThreadsState :=
  state.setWord object someFlags.flags (state.words object someFlags.flags &&& ~~~flags)

def abort (aborter : Aborter) : ThreadsState := { state with aborted := some aborter }

/-- `osEventFlagsSet` from the exit handler, which aborts if the wake fails. -/
def setOrAbort (object : EventObject) (flags : Word) (wakeStatus : Result) : ThreadsState :=
  if state.words object someFlags.flags &&& flags ≠ flags ∧ wakeStatus.negative then
    (state.setFlags object flags).abort .exitHandler
  else state.setFlags object flags

/-- `osThreadFlagsSet` for the reaper, from the exit handler. -/
def kickReaper (wakeStatus : Result) : ThreadsState :=
  match state.reaper with
  | none => state.abort .exitHandler
  | some reaper =>
      if state.threads[reaper]?.any RtosThread.valid then
        state.setOrAbort (.flags reaper) rtosReaperClean wakeStatus
      else state.abort .exitHandler

/-- A call of `osEventFlagsDelete` looks at the waiters. -/
def recordDelete (object : EventObject) (cleans : Bool) : ThreadsState :=
  { state with
    deletes := state.deletes ++
      [{ object := object
         status := osEventFlagsDelete someFlags (state.words object someFlags.waiters)
         waiting := decide (0 < state.waiting object)
         cleans := cleans }] }

/-- The task of a thread ends, which `osSchedulerTaskExitHandler` handles. -/
def endTask (index : Nat) (thread : RtosThread) (wakeStatus : Result) : ThreadsState :=
  let state := state.change index RtosThread.endTask
  if thread.joinable then state.setOrAbort (.joiner index) rtosThreadJoined wakeStatus
  else (state.change index RtosThread.markReap).kickReaper wakeStatus

def reapable : List Nat :=
  (List.range state.threads.length).filter fun index =>
    state.threads[index]?.any RtosThread.reapable

def collect : ThreadsState :=
  { state with
    threads := state.threads.map fun thread =>
      if thread.reapable then thread.unregister else thread
    reapList := state.reapable }

/-- `osKernelResourceRemove`: the node of a thread may be in the list of the reaper. -/
def unregister (index : Nat) : ThreadsState :=
  { state.change index RtosThread.unregister with
    reapList := state.reapList.filter (· ≠ index) }

def others (except : List Nat) (test : ThreadPlace → Bool) : Bool :=
  (List.range state.threads.length).any fun other =>
    decide (other ∉ except) && state.threads[other]?.any fun caller =>
      decide (caller.state ≠ .terminated) && test caller.place

def busy (index thread : Nat) : Bool :=
  state.others [index] fun place => decide (place.about = some thread)

/-- The capture of `osReleaseRobustMutex` takes all mutexes of the thread: it returns with an error, at which
the function aborts, if it holds five before it comes to the last one. -/
def fitsCapture (thread : Nat) : Bool := decide (state.robust.dropLast.count (some thread) < 5)

/-- Another call may take a mutex of the thread away between a test of its owner and the release, which then
fails. -/
def contested (index thread : Nat) : Bool :=
  state.busy index thread || decide (thread ∈ state.reclaims.map Reclaim.thread)

def freeMutexes (thread : Nat) : ThreadsState :=
  { state with robust := state.robust.map fun owner => if owner = some thread then none else owner }

def reclaim (index thread : Nat) (byReaper : Bool) : ThreadsState :=
  { state.change thread RtosThread.clearMarker with
    reclaims := state.reclaims ++
      [{ thread := thread
         byReaper := byReaper
         joinable := state.threads[thread]?.any RtosThread.joinable
         busy := state.busy index thread }]
    released :=
      if state.threads[thread]?.any fun thread => decide (thread.attrBits &&& osDynamicAlloc ≠ 0) then
        state.released ++ [thread]
      else state.released }

def reaperWait (index : Nat) : ThreadPlace := waitFor (.flags index) reaperWish osWaitForever .reap

def ensureReaper : ThreadsState :=
  match state.reaper with
  | some _ => state
  | none =>
      { state with
        threads := state.threads ++
          [{ RtosThread.new osDynamicAlloc with place := reaperWait state.threads.length }]
        reaper := some state.threads.length }

end ThreadsState

def reaperDone (flags : Word) (index : Nat) (state : ThreadsState) : ThreadsState :=
  if flags &&& rtosReaperExit ≠ 0 then state.abort .reaper
  else state.move index (ThreadsState.reaperWait index)

def ensureFor (thread : RtosThread) (state : ThreadsState) : ThreadsState :=
  if thread.joinable then state else state.ensureReaper

/-- `osThreadExit` -/
def osThreadExit (index : Nat) (thread : RtosThread) (state : ThreadsState) : ThreadsState :=
  if thread.valid then (ensureFor thread state).move index (.terminate index)
  else state.abort .osThreadExit

def afterWait (index : Nat) (value : Word) (state : ThreadsState) : AfterWait → ThreadsState
  | .leave => state.move index .outside
  | .join thread => state.move index (if value &&& osFlagsError ≠ 0 then .outside else .remove thread)
  | .reap =>
      if value &&& osFlagsError ≠ 0 then state.abort .reaper
      else if value &&& rtosReaperClean ≠ 0 then state.move index (.collect value)
      else reaperDone value index state

/-- The next step of a wait; the answer is that of the scheduler to `scheduler_futex_wait`. -/
def waitStep (index : Nat) (object : EventObject) (wish : FlagsWish) (timeout : Word) (after : AfterWait)
    (place : WaitPlace wish) (answer : Result) (state : ThreadsState) : Option ThreadsState :=
  match (osEventFlagsWait someFlags wish timeout place : ThreadOp Unit _) with
  | .word address act =>
      let (value, next) := act (state.words object address)
      some ((state.setWord object address value).move index (.wait object wish timeout next after))
  | .service _ resume => some (state.move index (.wait object wish timeout (resume answer) after))
  | .data _ => none

/-- `osReleaseRobustMutex` for a thread that has ended. -/
def cleanMutexes (index thread : Nat) (cleaner : Cleaner) (answer : Result) (state : ThreadsState) :
    ThreadsState :=
  if state.fitsCapture thread then
    if state.contested index thread ∧ answer.negative then
      match cleaner with
      | .joiner => state.move index .outside
      | .reaper _ => state.abort .reaper
    else (state.freeMutexes thread).move index (.clean thread .joiner cleaner)
  else
    match cleaner with
    | .joiner => state.abort .osThreadJoin
    | .reaper _ => state.abort .reaper

/-- The deletion of the event flags of a thread that has ended; a joiner returns an error, and the reaper
aborts. -/
def cleanDelete (index thread : Nat) (object : EventObject) (next : CleanPart) (cleaner : Cleaner)
    (state : ThreadsState) : ThreadsState :=
  let after := state.recordDelete object true
  if osEventFlagsDelete someFlags (state.words object someFlags.waiters) = .osOK then
    after.move index (.clean thread next cleaner)
  else
    match cleaner with
    | .joiner => after.move index .outside
    | .reaper _ => after.abort .reaper

def cleanStep (index thread : Nat) (part : CleanPart) (cleaner : Cleaner) (answer : Result)
    (state : ThreadsState) : ThreadsState :=
  match part with
  | .mutexes => cleanMutexes index thread cleaner answer state
  | .joiner => cleanDelete index thread (.joiner thread) .flags cleaner state
  | .flags => cleanDelete index thread (.flags thread) .clear cleaner state
  | .clear =>
      match cleaner with
      | .joiner => (state.reclaim index thread false).move index .outside
      | .reaper flags => (state.reclaim index thread true).move index (.pop flags)

def threadStep (index : Nat) (answer : Result) (own : RtosThread) (state : ThreadsState) :
    Option ThreadsState :=
  match own.place with
  | .outside => none
  | .wait object wish timeout (.inl place) after =>
      waitStep index object wish timeout after place answer state
  | .wait _ _ _ (.inr (some value)) after => some (afterWait index value state after)
  | .wait _ _ _ (.inr none) _ => some (osThreadExit index own state)
  | .delete object => some ((state.recordDelete object false).move index .outside)
  | .remove thread => some ((state.unregister thread).move index (.clean thread .mutexes .joiner))
  | .clean thread part cleaner => some (cleanStep index thread part cleaner answer state)
  | .terminate thread =>
      match state.threads[thread]? with
      | none => none
      | some target =>
          if target.state = .terminated then some (state.move index (.ended thread))
          else some ((state.endTask thread target answer).move index .outside)
  | .ended _ => some (state.move index .outside)
  | .detach thread =>
      some ((state.change thread RtosThread.detach).move index (.detached thread))
  | .detached thread =>
      match state.threads[thread]? with
      | none => none
      | some target =>
          if osThreadGetState target = .osThreadTerminated then
            let marked := state.change thread RtosThread.markReap
            match marked.reaper with
            | none => some (marked.move index .outside)
            | some reaper => some ((marked.setFlags (.flags reaper) rtosReaperClean).move index .outside)
          else some (state.move index .outside)
  | .collect flags =>
      if state.threads.any fun thread => thread.registered && !thread.valid then
        some (state.abort .reaper)
      else if state.reapable = [] then some (reaperDone flags index state)
      else some (state.collect.move index (.pop flags))
  | .pop flags =>
      match state.reapList with
      | [] => some (state.move index (.collect flags))
      | thread :: rest =>
          some ({ state with reapList := rest }.move index (.clean thread .mutexes (.reaper flags)))

/-- The step of a call, by the place that the call is at and what it finds there. -/
inductive ThreadMoves (index : Nat) (answer : Result) (own : RtosThread) (state : ThreadsState) :
    ThreadsState → Prop
  | wait {object wish timeout place after next}
      (isPlace : own.place = .wait object wish timeout (.inl place) after)
      (moved : waitStep index object wish timeout after place answer state = some next) :
      ThreadMoves index answer own state next
  | afterWait {object wish timeout value after}
      (isPlace : own.place = .wait object wish timeout (.inr (some value)) after) :
      ThreadMoves index answer own state (afterWait index value state after)
  | exit {object wish timeout after}
      (isPlace : own.place = .wait object wish timeout (.inr none) after) :
      ThreadMoves index answer own state (osThreadExit index own state)
  | delete {object} (isPlace : own.place = .delete object) :
      ThreadMoves index answer own state ((state.recordDelete object false).move index .outside)
  | remove {thread} (isPlace : own.place = .remove thread) :
      ThreadMoves index answer own state
        ((state.unregister thread).move index (.clean thread .mutexes .joiner))
  | clean {thread part cleaner} (isPlace : own.place = .clean thread part cleaner) :
      ThreadMoves index answer own state (cleanStep index thread part cleaner answer state)
  | terminated {thread target} (isPlace : own.place = .terminate thread)
      (isTarget : state.threads[thread]? = some target) (gone : target.state = .terminated) :
      ThreadMoves index answer own state (state.move index (.ended thread))
  | terminate {thread target} (isPlace : own.place = .terminate thread)
      (isTarget : state.threads[thread]? = some target) (live : target.state ≠ .terminated) :
      ThreadMoves index answer own state ((state.endTask thread target answer).move index .outside)
  | ended {thread} (isPlace : own.place = .ended thread) :
      ThreadMoves index answer own state (state.move index .outside)
  | detach {thread} (isPlace : own.place = .detach thread) :
      ThreadMoves index answer own state
        ((state.change thread RtosThread.detach).move index (.detached thread))
  | detached {thread target} (isPlace : own.place = .detached thread)
      (isTarget : state.threads[thread]? = some target)
      (running : osThreadGetState target ≠ .osThreadTerminated) :
      ThreadMoves index answer own state (state.move index .outside)
  | mark {thread target} (isPlace : own.place = .detached thread)
      (isTarget : state.threads[thread]? = some target)
      (ended : osThreadGetState target = .osThreadTerminated) (none_ : state.reaper = none) :
      ThreadMoves index answer own state
        ((state.change thread RtosThread.markReap).move index .outside)
  | kick {thread target reaper} (isPlace : own.place = .detached thread)
      (isTarget : state.threads[thread]? = some target)
      (ended : osThreadGetState target = .osThreadTerminated) (isReaper : state.reaper = some reaper) :
      ThreadMoves index answer own state
        (((state.change thread RtosThread.markReap).setFlags (.flags reaper) rtosReaperClean).move index
          .outside)
  | invalid {flags} (isPlace : own.place = .collect flags)
      (isInvalid : state.threads.any (fun thread => thread.registered && !thread.valid) = true) :
      ThreadMoves index answer own state (state.abort .reaper)
  | reaped {flags} (isPlace : own.place = .collect flags) (empty : state.reapable = []) :
      ThreadMoves index answer own state (reaperDone flags index state)
  | collect {flags} (isPlace : own.place = .collect flags) (some_ : state.reapable ≠ []) :
      ThreadMoves index answer own state (state.collect.move index (.pop flags))
  | popped {flags} (isPlace : own.place = .pop flags) (empty : state.reapList = []) :
      ThreadMoves index answer own state (state.move index (.collect flags))
  | pop {flags thread rest} (isPlace : own.place = .pop flags) (isList : state.reapList = thread :: rest) :
      ThreadMoves index answer own state
        ({ state with reapList := rest }.move index (.clean thread .mutexes (.reaper flags)))

theorem threadMoves {index : Nat} {answer : Result} {own : RtosThread} {state next : ThreadsState}
    (moved : threadStep index answer own state = some next) :
    ThreadMoves index answer own state next := by
  cases isPlace : own.place with
  | outside =>
      simp only [threadStep, isPlace] at moved
      cases moved
  | wait object wish timeout place after =>
      rcases place with place | _ | value
      · simp only [threadStep, isPlace] at moved
        exact .wait isPlace moved
      · simp only [threadStep, isPlace] at moved
        cases moved
        exact .exit isPlace
      · simp only [threadStep, isPlace] at moved
        cases moved
        exact .afterWait isPlace
  | delete object =>
      simp only [threadStep, isPlace] at moved
      cases moved
      exact .delete isPlace
  | remove thread =>
      simp only [threadStep, isPlace] at moved
      cases moved
      exact .remove isPlace
  | clean thread part cleaner =>
      simp only [threadStep, isPlace] at moved
      cases moved
      exact .clean isPlace
  | terminate thread =>
      simp only [threadStep, isPlace] at moved
      split at moved
      · cases moved
      rename_i target isTarget
      split at moved
      · rename_i gone
        cases moved
        exact .terminated isPlace isTarget gone
      · rename_i live
        cases moved
        exact .terminate isPlace isTarget live
  | ended thread =>
      simp only [threadStep, isPlace] at moved
      cases moved
      exact .ended isPlace
  | detach thread =>
      simp only [threadStep, isPlace] at moved
      cases moved
      exact .detach isPlace
  | detached thread =>
      simp only [threadStep, isPlace] at moved
      split at moved
      · cases moved
      rename_i target isTarget
      split at moved
      · rename_i ended
        split at moved
        · rename_i none_
          cases moved
          exact .mark isPlace isTarget ended none_
        · rename_i reaper isReaper
          cases moved
          exact .kick isPlace isTarget ended isReaper
      · rename_i running
        cases moved
        exact .detached isPlace isTarget running
  | collect flags =>
      simp only [threadStep, isPlace] at moved
      split at moved
      · rename_i isInvalid
        cases moved
        exact .invalid isPlace isInvalid
      split at moved
      · rename_i empty
        cases moved
        exact .reaped isPlace empty
      · rename_i some_
        cases moved
        exact .collect isPlace some_
  | pop flags =>
      simp only [threadStep, isPlace] at moved
      split at moved
      · rename_i empty
        cases moved
        exact .popped isPlace empty
      · rename_i thread rest isList
        cases moved
        exact .pop isPlace isList

inductive ThreadRequest where
  | osEventFlagsWait (address : Word) (wish : FlagsWish) (timeout : Word)
  | osEventFlagsDelete (address : Word)
  | osThreadFlagsWait (wish : FlagsWish) (timeout : Word)
  | osThreadFlagsClear (flags : Word)
  | osThreadJoin (thread : Nat)
  | osThreadDetach (thread : Nat)
  | osThreadTerminate (thread : Nat)
  | osThreadExit

def canJoin (index thread : Nat) (target : RtosThread) : Bool :=
  target.registered && target.valid && decide (osThreadGetState target ≠ .osThreadError) &&
    target.joinable && decide (thread ≠ index)

def beginRequest (index : Nat) (own : RtosThread) (state : ThreadsState) :
    ThreadRequest → ThreadsState
  | .osEventFlagsWait address wish timeout =>
      state.move index (waitFor (.other address) wish timeout .leave)
  | .osEventFlagsDelete address => state.move index (.delete (.other address))
  | .osThreadFlagsWait wish timeout =>
      if wish.flags &&& osFlagsError = 0 ∧ own.valid then
        state.move index (waitFor (.flags index) wish timeout .leave)
      else state
  | .osThreadFlagsClear flags =>
      if flags &&& osFlagsError = 0 then state.clearFlags (.flags index) flags else state
  | .osThreadJoin thread =>
      if state.threads[thread]?.any (canJoin index thread) then
        state.move index (waitFor (.joiner thread) joinWish osWaitForever (.join thread))
      else state
  | .osThreadDetach thread =>
      if state.threads[thread]?.any fun target => target.valid && target.joinable then
        state.ensureReaper.move index (.detach thread)
      else state
  | .osThreadTerminate thread =>
      match state.threads[thread]? with
      | none => state
      | some target =>
          if target.valid then (ensureFor target state).move index (.terminate thread) else state
  | .osThreadExit => osThreadExit index own state

/-- What a thread does, what the scheduler does with a thread (it changes its state, or evicts it because
of its stack), changes of flags by threads and handlers, and what calls for robust mutexes make of them. -/
inductive ThreadAction where
  | osThreadNew (attrBits : Word)
  | request (index : Nat) (request : ThreadRequest)
  | advance (index : Nat) (answer : Result)
  | schedule (index : Nat) (taskState : TaskState)
  | evict (index : Nat) (wakeStatus : Result)
  | osEventFlagsSet (address flags : Word)
  | osEventFlagsClear (address flags : Word)
  | osThreadFlagsSet (thread : Nat) (flags : Word)
  | robustMutexes (owners : List (Option Nat))

def ThreadsState.step (state : ThreadsState) : ThreadAction → Option ThreadsState
  | .osThreadNew attrBits =>
      some { state with threads := state.threads ++ [RtosThread.new attrBits] }
  | .request index request =>
      match state.threads[index]? with
      | none => none
      | some own =>
          match own.place with
          | .outside =>
              if own.state = .terminated then none else some (beginRequest index own state request)
          | _ => none
  | .advance index answer =>
      match state.threads[index]? with
      | none => none
      | some own => if own.state = .terminated then none else threadStep index answer own state
  | .schedule index taskState =>
      match state.threads[index]? with
      | none => none
      | some own =>
          if own.state = .terminated ∨ taskState = .terminated then none
          else some (state.change index fun thread => { thread with state := taskState })
  | .evict index wakeStatus =>
      match state.threads[index]? with
      | none => none
      | some own => if own.state = .terminated then none else some (state.endTask index own wakeStatus)
  | .osEventFlagsSet address flags =>
      if flags &&& osFlagsError = 0 then some (state.setFlags (.other address) flags) else none
  | .osEventFlagsClear address flags =>
      if flags &&& osFlagsError = 0 then some (state.clearFlags (.other address) flags) else none
  | .osThreadFlagsSet thread flags =>
      if flags &&& osFlagsError = 0 ∧ state.threads[thread]?.any RtosThread.valid then
        some (state.setFlags (.flags thread) flags)
      else none
  | .robustMutexes owners => some { state with robust := owners }

inductive ThreadSteps (state : ThreadsState) : ThreadAction → ThreadsState → Prop
  | osThreadNew (attrBits) :
      ThreadSteps state (.osThreadNew attrBits)
        { state with threads := state.threads ++ [RtosThread.new attrBits] }
  | request {index own} (request) (found : state.threads[index]? = some own)
      (isOutside : own.place = .outside) (live : own.state ≠ .terminated) :
      ThreadSteps state (.request index request) (beginRequest index own state request)
  | advance {index own answer next} (found : state.threads[index]? = some own)
      (live : own.state ≠ .terminated) (moved : threadStep index answer own state = some next) :
      ThreadSteps state (.advance index answer) next
  | schedule {index own taskState} (found : state.threads[index]? = some own)
      (live : own.state ≠ .terminated) (stays : taskState ≠ .terminated) :
      ThreadSteps state (.schedule index taskState)
        (state.change index fun thread => { thread with state := taskState })
  | evict {index own} (wakeStatus) (found : state.threads[index]? = some own)
      (live : own.state ≠ .terminated) :
      ThreadSteps state (.evict index wakeStatus) (state.endTask index own wakeStatus)
  | osEventFlagsSet {address flags} (valid : flags &&& osFlagsError = 0) :
      ThreadSteps state (.osEventFlagsSet address flags) (state.setFlags (.other address) flags)
  | osEventFlagsClear {address flags} (valid : flags &&& osFlagsError = 0) :
      ThreadSteps state (.osEventFlagsClear address flags) (state.clearFlags (.other address) flags)
  | osThreadFlagsSet {thread flags} (valid : flags &&& osFlagsError = 0)
      (isThread : state.threads[thread]?.any RtosThread.valid = true) :
      ThreadSteps state (.osThreadFlagsSet thread flags) (state.setFlags (.flags thread) flags)
  | robustMutexes (owners) :
      ThreadSteps state (.robustMutexes owners) { state with robust := owners }

theorem threadSteps {state next : ThreadsState} {action : ThreadAction}
    (moved : state.step action = some next) : ThreadSteps state action next := by
  cases action with
  | osThreadNew attrBits =>
      cases moved
      exact .osThreadNew attrBits
  | request index request =>
      simp only [ThreadsState.step] at moved
      split at moved
      · cases moved
      rename_i own found
      split at moved
      · rename_i isOutside
        rw [Option.ite_none_left_eq_some] at moved
        obtain ⟨live, isNext⟩ := moved
        cases isNext
        exact .request request found isOutside live
      · cases moved
  | advance index answer =>
      simp only [ThreadsState.step] at moved
      split at moved
      · cases moved
      rename_i own found
      rw [Option.ite_none_left_eq_some] at moved
      exact .advance found moved.1 moved.2
  | schedule index taskState =>
      simp only [ThreadsState.step] at moved
      split at moved
      · cases moved
      rename_i own found
      rw [Option.ite_none_left_eq_some, not_or] at moved
      obtain ⟨⟨live, stays⟩, isNext⟩ := moved
      cases isNext
      exact .schedule found live stays
  | evict index wakeStatus =>
      simp only [ThreadsState.step] at moved
      split at moved
      · cases moved
      rename_i own found
      rw [Option.ite_none_left_eq_some] at moved
      obtain ⟨live, isNext⟩ := moved
      cases isNext
      exact .evict wakeStatus found live
  | osEventFlagsSet address flags =>
      simp only [ThreadsState.step, Option.ite_none_right_eq_some] at moved
      obtain ⟨valid, isNext⟩ := moved
      cases isNext
      exact .osEventFlagsSet valid
  | osEventFlagsClear address flags =>
      simp only [ThreadsState.step, Option.ite_none_right_eq_some] at moved
      obtain ⟨valid, isNext⟩ := moved
      cases isNext
      exact .osEventFlagsClear valid
  | osThreadFlagsSet thread flags =>
      simp only [ThreadsState.step, Option.ite_none_right_eq_some] at moved
      obtain ⟨⟨valid, isThread⟩, isNext⟩ := moved
      cases isNext
      exact .osThreadFlagsSet valid isThread
  | robustMutexes owners =>
      cases moved
      exact .robustMutexes owners

/-- At first there is one thread, no robust mutex and no reaper, and all event flags are as they have been
created. -/
def threadsSystem : System ThreadsState ThreadAction where
  initial state :=
    (∃ attrBits, attrBits &&& osReapThread = 0 ∧ state.threads = [RtosThread.new attrBits]) ∧
      state.words = (fun _ _ => 0) ∧ state.reaper = none ∧ state.reapList = [] ∧
      state.aborted = none ∧ state.deletes = [] ∧ state.reclaims = [] ∧ state.released = [] ∧
      state.robust = []
  step state action := if state.aborted.isSome then none else state.step action

end PicoToolkit
