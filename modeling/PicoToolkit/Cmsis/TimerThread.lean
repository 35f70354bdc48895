import PicoToolkit.Cmsis.Timers

/-!
The tick hook, the timer thread and the callers of the timer functions, step by step: a step is a call of a
list function, of the lock or of the dispatch queue, or the assignments between two of them.  The callers may
be on the other core, where the hook does not wait for the lock that they take.
-/

namespace PicoToolkit

open Ring Transition LinkFields

def rtosTimerQueueSize : Nat := 5

/-- Where `scheduler_tick_hook` is; `full` tells that the queue has had no room for the expired timer. -/
inductive HookPlace where
  | idle
  | looking
  | popping
  | posting (expired : Word)
  | aiming (expired : Word) (full : Bool)
  | inserting (expired : Word) (full : Bool) (current : Node Unit Word)

inductive TimerThreadPlace where
  | waiting
  | dispatching (timerId : Word)
  | calling
  | ended

/-- Where a caller is in `osTimerStart`, `osTimerStop` or `osTimerDelete`; a removal is for one of the last
two. -/
inductive TimerCallPlace where
  | outside
  | starting (timerId ticks : Word)
  | entering (timerId : Word)
  | searching (timerId : Word)
  | inserting (timerId : Word) (current : Node Unit Word)
  | leaving
  | stopping (timerId : Word)
  | locking (timerId : Word) (deletes : Bool)
  | testing (timerId : Word)
  | removing (timerId : Word) (deletes : Bool)
  | unlocking (timerId : Word) (deletes : Bool)
  | clearing (timerId : Word)
  | releasing (timerId : Word)

def HookPlace.held : HookPlace → Option Word
  | .posting expired | .aiming expired _ | .inserting expired _ _ => some expired
  | _ => none

def TimerThreadPlace.held : TimerThreadPlace → Option Word
  | .dispatching timerId => some timerId
  | _ => none

/-- A callback that the timer thread has begun, and whether the timer was a stopped or a deleted one then. -/
structure TimerCallback where
  timer : Word
  func : Word
  argument : Word
  stopped : Bool
  deleted : Bool
  deriving DecidableEq

/-- The timers, `active_timers_lock` with its holder, the messages in `timer_queue`, and where everybody is.
The other fields are history: which timers have been taken out of the list by a call and not been started
since, for which of these the call has returned `osOK`, which ones have been deleted, and the callbacks. -/
structure DispatchState where
  timers : TimerState
  activeTimersLock : Option Word
  timerQueue : List Word
  hook : HookPlace
  thread : TimerThreadPlace
  calls : Word → TimerCallPlace
  removed : Word → Bool
  stopped : Word → Bool
  deleted : Word → Bool
  callbacks : List TimerCallback

def insertionPlace (timerId : Word) (state : TimerState) : Option (Node Unit Word) :=
  listForEachEntry state.activeTimers
    (fun current => decide ((state.timer timerId).target < (state.timer current).target))
    (addressSpace + 1) (state.activeTimers.next (.head ()))

def insertAt (timerId : Word) (current : Node Unit Word) (state : TimerState) : TimerState :=
  { state with activeTimers := listInsertBefore state.activeTimers current (.node timerId) }

def clearMarker (timerId : Word) (state : TimerState) : TimerState :=
  state.setTimer timerId fun timer => { timer with marker := 0 }

def releaseTimer (timerId : Word) (state : TimerState) : TimerState :=
  { state with
    released :=
      if (state.timer timerId).attrBits &&& osDynamicAlloc ≠ 0 then state.released ++ [timerId]
      else state.released }

/-- The next step of the hook of core 0; `osStatus` is what `osMessageQueuePut` returns, if it is called. -/
def hookStep (osStatus : OsStatus) (state : DispatchState) : Option DispatchState :=
  let ticks := state.timers.tickCount
  match state.hook with
  | .idle => none
  | .looking =>
      if (expiredTimer ticks state.timers).isSome then some { state with hook := .popping }
      else some { state with hook := .idle }
  | .popping =>
      match (listPop state.timers.activeTimers (.head ())).1 with
      | some (.node expired) =>
          some { state with timers := popExpired state.timers, hook := .posting expired }
      | _ => none
  | .posting expired =>
      if osStatus = .osErrorResource then some { state with hook := .aiming expired true }
      else if osStatus = .osOK ∧ state.timerQueue.length < rtosTimerQueueSize then
        some { state with
          timers := accept expired state.timers
          timerQueue := state.timerQueue ++ [expired]
          hook :=
            if (state.timers.timer expired).type = .osTimerPeriodic then .aiming expired false
            else .looking }
      else none
  | .aiming expired full =>
      let timers := if full then refuse ticks expired state.timers else rearm ticks expired state.timers
      (insertionPlace expired timers).map fun current =>
        { state with timers := timers, hook := .inserting expired full current }
  | .inserting expired full current =>
      some { state with
        timers := insertAt expired current state.timers
        hook := if full then .idle else .looking }

def timerThreadStep (state : DispatchState) : Option DispatchState :=
  match state.thread with
  | .waiting =>
      match state.timerQueue with
      | [] => none
      | timerId :: rest =>
          some { state with
            timerQueue := rest
            thread := if timerId = 0 then .ended else .dispatching timerId }
  | .dispatching timerId =>
      some { state with
        thread := .calling
        callbacks := state.callbacks ++
          [{ timer := timerId
             func := (state.timers.timer timerId).func
             argument := (state.timers.timer timerId).argument
             stopped := state.stopped timerId
             deleted := state.deleted timerId }] }
  | .calling => some { state with thread := .waiting }
  | .ended => none

namespace DispatchState

variable (state : DispatchState)

def move (caller : Word) (place : TimerCallPlace) : DispatchState :=
  { state with calls := Function.update state.calls caller place }

def acquire (caller : Word) : Option DispatchState :=
  if state.activeTimersLock = none then some { state with activeTimersLock := some caller } else none

def setRemoved (timerId : Word) : DispatchState :=
  { state with removed := Function.update state.removed timerId true }

def setStopped (timerId : Word) : DispatchState :=
  { state with stopped := Function.update state.stopped timerId (state.removed timerId) }

def setStarted (timerId : Word) : DispatchState :=
  { state with
    removed := Function.update state.removed timerId false
    stopped := Function.update state.stopped timerId false }

def setDeleted (timerId : Word) : DispatchState :=
  { state with deleted := Function.update state.deleted timerId true }

end DispatchState

inductive TimerRequest where
  | start (ticks : Word)
  | stop
  | delete

/-- The checks of a call; if one fails, the caller has its status at once.  The timer thread and its queue
have been made before the first timer is in the list. -/
def beginCall (caller timerId : Word) (request : TimerRequest) (context : Context)
    (state : DispatchState) : DispatchState :=
  match request with
  | .start ticks =>
      if startStatus timerId context state.timers ticks = .osOK then
        state.move caller (.starting timerId ticks)
      else state
  | .stop =>
      if timerStatus timerId context state.timers = .osOK then state.move caller (.stopping timerId)
      else state
  | .delete =>
      if timerStatus timerId context state.timers = .osOK then
        state.move caller (.locking timerId true)
      else state

/-- The next step of a caller.  In a thread the removal from the list of all timers succeeds. -/
def callStep (caller : Word) (state : DispatchState) : Option DispatchState :=
  match state.calls caller with
  | .outside => none
  | .starting timerId ticks =>
      some ({ state with timers := startedTimer timerId state.timers ticks }.move caller
        (.entering timerId))
  | .entering timerId => (state.acquire caller).map fun state => state.move caller (.searching timerId)
  | .searching timerId =>
      (insertionPlace timerId state.timers).map fun current =>
        state.move caller (.inserting timerId current)
  | .inserting timerId current =>
      some (({ state with timers := insertAt timerId current state.timers }.setStarted timerId).move
        caller .leaving)
  | .leaving => some ({ state with activeTimersLock := none }.move caller .outside)
  | .stopping timerId =>
      some (state.move caller
        (if listIsLinked state.timers.activeTimers (.node timerId) then .locking timerId false
        else .outside))
  | .locking timerId deletes =>
      (state.acquire caller).map fun state =>
        state.move caller (if deletes then .testing timerId else .removing timerId false)
  | .testing timerId =>
      if listIsLinked state.timers.activeTimers (.node timerId) then
        some (state.move caller (.removing timerId true))
      else some ((state.setRemoved timerId).move caller (.unlocking timerId true))
  | .removing timerId deletes =>
      some (({ state with timers := removeTimer timerId state.timers }.setRemoved timerId).move caller
        (.unlocking timerId deletes))
  | .unlocking timerId deletes =>
      let state := { state with activeTimersLock := none }
      if deletes then some (state.move caller (.clearing timerId))
      else some ((state.setStopped timerId).move caller .outside)
  | .clearing timerId =>
      some ({ state with timers := clearMarker timerId state.timers }.move caller (.releasing timerId))
  | .releasing timerId =>
      let state := { state with timers := releaseTimer timerId state.timers }
      some (((state.setStopped timerId).setDeleted timerId).move caller .outside)

inductive DispatchAction where
  | tick
  | hook (osStatus : OsStatus)
  | thread
  | call (caller timerId : Word) (request : TimerRequest) (context : Context)
  | advance (caller : Word)

def dispatchSystem : System DispatchState DispatchAction where
  initial state :=
    state.timers.activeTimers = Links.empty ∧ state.hook = .idle ∧
      state.stopped = (fun _ => false) ∧ state.removed = (fun _ => false) ∧
      state.deleted = (fun _ => false) ∧ state.callbacks = [] ∧
      state.timerQueue = [] ∧ state.thread = .waiting ∧ state.activeTimersLock = none ∧
      ∀ caller, state.calls caller = .outside
  step state
    | .tick =>
        match state.hook with
        | .idle =>
            some { state with
              timers := { state.timers with now := state.timers.now + 1 }
              hook := .looking }
        | _ => none
    | .hook osStatus => hookStep osStatus state
    | .thread => timerThreadStep state
    | .call caller timerId request context =>
        match state.calls caller with
        | .outside => some (beginCall caller timerId request context state)
        | _ => none
    | .advance caller => callStep caller state

end PicoToolkit
