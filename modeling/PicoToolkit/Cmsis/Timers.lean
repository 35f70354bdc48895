import PicoToolkit.Cmsis.Kernel
import PicoToolkit.Cmsis.TimerList
import PicoToolkit.Library.Transition

/-!
Application timers: an ordered ring of control blocks, from which the tick hook takes the expired ones to
post them to the timer thread.
-/

namespace PicoToolkit

open Ring Transition LinkFields

def rtosTimerMarker : Word := 0x42066024

inductive OsTimerType where
  | osTimerOnce
  | osTimerPeriodic
  deriving DecidableEq

structure RtosTimer where
  marker : Word
  attrBits : Word
  type : OsTimerType
  func : Word
  argument : Word
  ticks : Word
  target : Word

/-- A message to the timer thread: the timer, the moment, and the one from which it was due. -/
structure TimerPost where
  timer : Word
  moment : Nat
  due : Nat
  deriving DecidableEq

/-- The control blocks, the ring of active timers, the ticks of core 0 so far, and the control blocks that
have been given back.  The other fields are history: which timers have been started and not stopped or
expired since, from which moment the next message of a timer is due, which moment its target stands for,
the messages that the queue has accepted, and whether the last tick has found it full. -/
structure TimerState where
  timer : Word → RtosTimer
  activeTimers : Links Unit Word
  now : Nat
  released : List Word
  running : Word → Bool
  due : Word → Nat
  deadline : Word → Nat
  posts : List TimerPost
  refused : Bool

namespace TimerState

/-- `osKernelGetTickCount` -/
def tickCount (state : TimerState) : Word := BitVec.ofNat 32 state.now

def setTimer (state : TimerState) (timerId : Word) (change : RtosTimer → RtosTimer) : TimerState :=
  { state with timer := Function.update state.timer timerId (change (state.timer timerId)) }

def aim (state : TimerState) (timerId target : Word) (moment : Nat) : TimerState :=
  { state.setTimer timerId fun timer => { timer with target := target } with
    deadline := Function.update state.deadline timerId moment }

def setDue (state : TimerState) (timerId : Word) (moment : Nat) : TimerState :=
  { state with due := Function.update state.due timerId moment }

def setRunning (state : TimerState) (timerId : Word) (isRunning : Bool) : TimerState :=
  { state with running := Function.update state.running timerId isRunning }

section Fields

variable {state : TimerState} {timerId other : Word} {change : RtosTimer → RtosTimer}

@[simp]
theorem timer_setTimer_self :
    (state.setTimer timerId change).timer timerId = change (state.timer timerId) :=
  Function.update_self ..

theorem timer_setTimer_of_ne (different : other ≠ timerId) :
    (state.setTimer timerId change).timer other = state.timer other :=
  Function.update_of_ne different ..

end Fields

end TimerState

/-- The loop that finds the place of a timer, and `list_insert_before`. -/
def insertInOrder (timerId : Word) (state : TimerState) : Option TimerState :=
  (listForEachEntry state.activeTimers
      (fun current => decide ((state.timer timerId).target < (state.timer current).target))
      (addressSpace + 1) (state.activeTimers.next (.head ()))).map fun entry =>
    { state with activeTimers := listInsertBefore state.activeTimers entry (.node timerId) }

/-- The first timer, if the hook has to take it off the list: a list that is not empty begins with one. -/
def expiredTimer (ticks : Word) (state : TimerState) : Option Word :=
  match state.activeTimers.next (.head ()) with
  | .head _ => none
  | .node first =>
      if !listIsEmpty state.activeTimers (.head ()) && decide ((state.timer first).target ≤ ticks)
      then some first
      else none

def popExpired (state : TimerState) : TimerState :=
  { state with activeTimers := (listPop state.activeTimers (.head ())).2 }

def refuse (ticks expired : Word) (state : TimerState) : TimerState :=
  { state.aim expired (ticks + 0) state.now with refused := true }

def accept (expired : Word) (state : TimerState) : TimerState :=
  { state with posts := state.posts ++ [⟨expired, state.now, state.due expired⟩] }

def rearm (ticks expired : Word) (state : TimerState) : TimerState :=
  let moment := state.now + (state.timer expired).ticks.toNat
  (state.aim expired (ticks + (state.timer expired).ticks) moment).setDue expired moment

section History

variable {state : TimerState} {ticks expired other : Word}

theorem refuse_self : (refuse ticks expired state).timer expired =
      { state.timer expired with target := ticks + 0 } ∧
    (refuse ticks expired state).due expired = state.due expired ∧
    (refuse ticks expired state).deadline expired = state.now :=
  ⟨Function.update_self .., rfl, Function.update_self ..⟩

theorem refuse_of_ne (different : other ≠ expired) :
    (refuse ticks expired state).timer other = state.timer other ∧
    (refuse ticks expired state).due other = state.due other ∧
    (refuse ticks expired state).deadline other = state.deadline other :=
  ⟨Function.update_of_ne different .., rfl, Function.update_of_ne different ..⟩

theorem rearm_self : (rearm ticks expired state).timer expired =
      { state.timer expired with target := ticks + (state.timer expired).ticks } ∧
    (rearm ticks expired state).due expired = state.now + (state.timer expired).ticks.toNat ∧
    (rearm ticks expired state).deadline expired = state.now + (state.timer expired).ticks.toNat :=
  ⟨Function.update_self .., Function.update_self .., Function.update_self ..⟩

theorem rearm_of_ne (different : other ≠ expired) :
    (rearm ticks expired state).timer other = state.timer other ∧
    (rearm ticks expired state).due other = state.due other ∧
    (rearm ticks expired state).deadline other = state.deadline other :=
  ⟨Function.update_of_ne different .., Function.update_of_ne different ..,
    Function.update_of_ne different ..⟩

end History

def afterPost (ticks expired : Word) (osStatus : OsStatus) (state : TimerState) :
    Option TimerState :=
  if osStatus = .osErrorResource then insertInOrder expired (refuse ticks expired state)
  else if (state.timer expired).type = .osTimerPeriodic then
    insertInOrder expired (rearm ticks expired (accept expired state))
  else some ((accept expired state).setRunning expired false)

/-- The loop of the hook, with the outcomes of its calls of `osMessageQueuePut`; it aborts on any that
is not expected. -/
def tickLoop (ticks : Word) : List OsStatus → TimerState → Option TimerState
  | [], state => if (expiredTimer ticks state).isSome then none else some state
  | osStatus :: rest, state =>
      (expiredTimer ticks state).bind fun expired =>
        if osStatus = .osErrorResource then
          if rest = [] then afterPost ticks expired osStatus (popExpired state) else none
        else if osStatus = .osOK then
          (afterPost ticks expired osStatus (popExpired state)).bind (tickLoop ticks rest)
        else none

def schedulerTickHook (core : Nat) (ticks : Word) (outcomes : List OsStatus) (state : TimerState) :
    Option TimerState :=
  if core ≠ 0 then some state else tickLoop ticks outcomes { state with refused := false }

def timerTick (core : Nat) (outcomes : List OsStatus) (state : TimerState) : Option TimerState :=
  let state := if core = 0 then { state with now := state.now + 1 } else state
  schedulerTickHook core state.tickCount outcomes state

section Calls

variable (timerId : Word) (context : Context) (state : TimerState)

def timerValid : OsStatus :=
  if timerId = 0 then .osErrorParameter
  else osIsResourceValid (state.timer timerId).marker rtosTimerMarker

def timerStatus : OsStatus :=
  if osKernelContextIsValid false 0 context ≠ .osOK then osKernelContextIsValid false 0 context
  else timerValid timerId state

def startStatus (ticks : Word) : OsStatus :=
  if ticks = 0 ∨ ticks = osWaitForever then .osErrorParameter else timerStatus timerId context state

variable {timerId context state} in
theorem timerValid_congr {next : TimerState}
    (same : (next.timer timerId).marker = (state.timer timerId).marker) :
    timerValid timerId next = timerValid timerId state := by
  rw [timerValid, timerValid, same]

variable {timerId context state} in
theorem timerValid_of_timerStatus (succeeds : timerStatus timerId context state = .osOK) :
    timerValid timerId state = .osOK := by
  rw [timerStatus] at succeeds
  split at succeeds
  · rename_i refused
    exact (refused succeeds).elim
  · exact succeeds

variable {timerId context state} in
theorem timerStatus_of_startStatus {ticks : Word}
    (succeeds : startStatus timerId context state ticks = .osOK) :
    timerStatus timerId context state = .osOK := by
  rw [startStatus] at succeeds
  split at succeeds
  · cases succeeds
  · exact succeeds

def startedTimer (ticks : Word) : TimerState :=
  let state := state.setTimer timerId fun timer => { timer with ticks := ticks }
  ((state.aim timerId (state.tickCount + ticks) (state.now + ticks.toNat)).setDue timerId
    (state.now + ticks.toNat)).setRunning timerId true

theorem timer_startedTimer_self (ticks : Word) : (startedTimer timerId state ticks).timer timerId =
    { state.timer timerId with ticks := ticks, target := state.tickCount + ticks } := by
  have same : (startedTimer timerId state ticks).timer =
      Function.update (Function.update state.timer timerId { state.timer timerId with ticks := ticks })
        timerId { Function.update state.timer timerId { state.timer timerId with ticks := ticks }
          timerId with target := state.tickCount + ticks } := rfl
  rw [same, Function.update_self, Function.update_self]

theorem history_startedTimer_self (ticks : Word) :
    (startedTimer timerId state ticks).due timerId = state.now + ticks.toNat ∧
      (startedTimer timerId state ticks).deadline timerId = state.now + ticks.toNat ∧
      (startedTimer timerId state ticks).running timerId = true :=
  ⟨Function.update_self .., Function.update_self .., Function.update_self ..⟩

theorem history_startedTimer_of_ne {other : Word} (different : other ≠ timerId) (ticks : Word) :
    (startedTimer timerId state ticks).due other = state.due other ∧
      (startedTimer timerId state ticks).deadline other = state.deadline other ∧
      (startedTimer timerId state ticks).running other = state.running other :=
  ⟨Function.update_of_ne different .., Function.update_of_ne different ..,
    Function.update_of_ne different ..⟩

theorem timer_startedTimer_of_ne {other : Word} (different : other ≠ timerId) (ticks : Word) :
    (startedTimer timerId state ticks).timer other = state.timer other :=
  (Function.update_of_ne different ..).trans (Function.update_of_ne different ..)

def osTimerStart (ticks : Word) : Option (OsStatus × TimerState) :=
  if startStatus timerId context state ticks ≠ .osOK then
    some (startStatus timerId context state ticks, state)
  else (insertInOrder timerId (startedTimer timerId state ticks)).map fun state => (.osOK, state)

def removeTimer : TimerState :=
  { state with activeTimers := listRemove state.activeTimers (.node timerId) }.setRunning timerId false

def osTimerStop : OsStatus × TimerState :=
  if timerStatus timerId context state ≠ .osOK then (timerStatus timerId context state, state)
  else if listIsLinked state.activeTimers (.node timerId) = false then (.osErrorResource, state)
  else (.osOK, removeTimer timerId state)

def osTimerIsRunning : Word :=
  if timerStatus timerId context state ≠ .osOK then 0
  else if listIsLinked state.activeTimers (.node timerId) then 1 else 0

/-- The end of `osTimerDelete`, when the timer is not in the list any more. -/
def deleteTimer : TimerState :=
  { state.setTimer timerId fun timer => { timer with marker := 0 } with
    released :=
      if (state.timer timerId).attrBits &&& osDynamicAlloc ≠ 0 then state.released ++ [timerId]
      else state.released }

theorem running_of_removeTimer {other : Word} (running : (removeTimer timerId state).running other) :
    state.running other := by
  by_cases isIt : other = timerId
  · have stopped : (removeTimer timerId state).running timerId = false := Function.update_self ..
    rw [isIt, stopped] at running
    cases running
  · have kept : (removeTimer timerId state).running other = state.running other :=
      Function.update_of_ne isIt ..
    exact kept.symm.trans running

theorem timer_deleteTimer (other : Word) :
    ((deleteTimer timerId state).timer other).target = (state.timer other).target ∧
      ((deleteTimer timerId state).timer other).ticks = (state.timer other).ticks := by
  have cleared : (deleteTimer timerId state).timer =
      (state.setTimer timerId fun timer => { timer with marker := 0 }).timer := rfl
  rw [cleared]
  by_cases isIt : other = timerId
  · subst isIt
    rw [TimerState.timer_setTimer_self]
    exact ⟨rfl, rfl⟩
  · rw [TimerState.timer_setTimer_of_ne isIt]
    exact ⟨rfl, rfl⟩

def osTimerDelete : OsStatus × TimerState :=
  if timerStatus timerId context state ≠ .osOK then (timerStatus timerId context state, state)
  else
    let stopped :=
      if listIsLinked state.activeTimers (.node timerId) then removeTimer timerId state else state
    (.osOK, deleteTimer timerId stopped)

end Calls

inductive TimerAction where
  | start (timerId ticks : Word) (context : Context)
  | stop (timerId : Word) (context : Context)
  | delete (timerId : Word) (context : Context)
  | tick (core : Nat) (outcomes : List OsStatus)

/-- Calls of the timer functions and ticks, one after the other; at first no timer has been started. -/
def timerSystem : System TimerState TimerAction where
  initial state :=
    state.activeTimers = Links.empty ∧ state.now = 0 ∧ state.released = [] ∧
      state.running = (fun _ => false) ∧ state.posts = [] ∧ state.refused = false
  step state
    | .start timerId ticks context => (osTimerStart timerId context state ticks).map Prod.snd
    | .stop timerId context => some (osTimerStop timerId context state).2
    | .delete timerId context => some (osTimerDelete timerId context state).2
    | .tick core outcomes => timerTick core outcomes state

end PicoToolkit
