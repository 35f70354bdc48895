import PicoToolkit.Inheritance.Order
import PicoToolkit.Threads.Mutex

/-!
A condition variable that is used with one mutex: `cnd_wait`, `cnd_timedwait`, `cnd_signal` and
`cnd_broadcast` as the steps of any number of tasks, and what a signal and a broadcast owe to those
who wait when they are called.
-/

namespace PicoToolkit

open Transition

/-- In `_cnd_wait`, with the sequence that it has read and the time that it may wait, or in
`_cnd_wakeup`. -/
inductive CondPlace where
  | idle
  | sequence (msec : Word)
  | mutex (sequence msec : Word)
  | unlock (sequence msec : Word)
  | futexWait (sequence msec : Word)
  | blocked (msec : Word)
  | lock (status : Result)
  | fetchAdd (all : Bool)
  | futexWake (all : Bool)
  | gone
  deriving DecidableEq

/-- Where the tasks are, the fields of `struct cnd`, the queue of its futex with the priorities of the
tasks, and who owns the mutex. -/
structure Condition where
  place : Word → CondPlace
  priority : Word → Nat
  waiters : List Word := []
  sequence : Word := 0
  bound : Bool := false
  owner : Option Word := none

/-- The functions; `cnd_timedwait` comes with the ticks that it reads and the milliseconds of its
argument. -/
inductive CondCall where
  | cndWait
  | cndTimedwait (ticks : Word) (tmTicks : BitVec 64)
  | cndSignal
  | cndBroadcast
  | mtxLock
  | mtxUnlock

/-- The begin of a call, the next step of a task, a wait that ends with a status without a wake, and what
else the scheduler does to a task. -/
inductive CondAction where
  | call (task : Word) (call : CondCall)
  | act (task : Word)
  | returns (task : Word) (status : Result)
  | setPriority (task : Word) (priority : Nat)
  | terminate (task : Word)

def CondPlace.isBlocked : CondPlace → Bool
  | .blocked _ => true
  | _ => false

namespace Condition

def goes (state : Condition) (task : Word) (place : CondPlace) : Condition :=
  { state with place := Function.update state.place task place }

def unlock (state : Condition) (task : Word) : Condition :=
  { state with owner := if state.owner = some task then none else state.owner }

def futexWait (state : Condition) (task sequence msec : Word) : Condition :=
  if state.sequence = sequence then
    { state.goes task (.blocked msec) with
      waiters := insertByUrgency state.priority task state.waiters }
  else state.goes task (.lock (.value 0))

def woken (state : Condition) (tasks : List Word) : Condition :=
  { state with
    place := fun task => if task ∈ tasks then .lock (.value 0) else state.place task
    waiters := state.waiters.filter (· ∉ tasks) }

def chosen (state : Condition) (all : Bool) : List Word :=
  if all then state.waiters else state.waiters.take 1

def futexWake (state : Condition) (all : Bool) : Condition := state.woken (state.chosen all)

def advance (state : Condition) (task : Word) : Option Condition :=
  match state.place task with
  | .idle | .blocked _ | .gone => none
  | .sequence msec => some (state.goes task (.mutex state.sequence msec))
  -- the mutex is always the same one
  | .mutex sequence msec => some { state.goes task (.unlock sequence msec) with bound := true }
  | .unlock sequence msec => some ((state.unlock task).goes task (.futexWait sequence msec))
  | .futexWait sequence msec => some (state.futexWait task sequence msec)
  | .lock _ =>
      if state.owner = none ∨ state.owner = some task then
        some { state.goes task .idle with owner := some task }
      else none
  | .fetchAdd all =>
      some { state.goes task (.futexWake all) with sequence := state.sequence + 1 }
  | .futexWake all => some ((state.futexWake all).goes task .idle)

def call (state : Condition) (task : Word) : CondCall → Option Condition
  | .cndWait => some (state.goes task (.sequence schedulerWaitForever))
  | .cndTimedwait ticks tmTicks =>
      if ticks.zeroExtend 64 < tmTicks ∨ 0xffffffff ≤ tmTicks - ticks.zeroExtend 64 then some state
      else some (state.goes task (.sequence ((tmTicks - ticks.zeroExtend 64).truncate 32)))
  | .cndSignal => some (state.goes task (.fetchAdd false))
  | .cndBroadcast => some (state.goes task (.fetchAdd true))
  | .mtxLock =>
      if state.owner = none ∨ state.owner = some task then some { state with owner := some task }
      else none
  | .mtxUnlock => some (state.unlock task)

/-- A wait that ends without a wake, of which only one with a timeout expires; a lock that is broken is
not taken, and nobody looks at that. -/
def broken (state : Condition) (task : Word) (status : Result) : Option Condition :=
  match state.place task with
  | .blocked msec =>
      if status = .error .etimedout ∧ ¬msec < schedulerWaitForever then none
      else some { state.goes task (.lock status) with
        waiters := state.waiters.filter (· ≠ task) }
  | .lock _ => if status.negative then some (state.goes task .idle) else none
  | _ => none

def setPriority (state : Condition) (task : Word) (priority : Nat) : Condition :=
  let priorities := Function.update state.priority task priority
  { state with
    priority := priorities
    waiters :=
      if task ∈ state.waiters then
        insertByUrgency priorities task (state.waiters.filter (· ≠ task))
      else state.waiters }

def step (tasks : List Word) (state : Condition) : CondAction → Option Condition
  | .call task call =>
      match state.place task with
      | .idle => if task ∈ tasks then state.call task call else none
      | _ => none
  | .act task => state.advance task
  | .returns task status => state.broken task status
  | .setPriority task priority => some (state.setPriority task priority)
  | .terminate task =>
      some { state.goes task .gone with waiters := state.waiters.filter (· ≠ task) }

end Condition

abbrev conditionSystem (tasks : List Word) : System Condition CondAction where
  initial state := (∀ task, state.place task = .idle) ∧ state.waiters = []
  step := Condition.step tasks

/-- A call of `cnd_signal` or `cnd_broadcast`: who waited when it began, and who of them has waited ever
since. -/
structure SignalCall where
  all : Bool
  waited : List Word
  still : List Word
  deriving DecidableEq

/-- How often the sequence has been incremented, and how often when each task read it; the last signal of
each task, and the signals that have returned. -/
structure SignalHistory where
  signals : Nat := 0
  seen : Word → Nat := fun _ => 0
  signal : Word → SignalCall := fun _ => ⟨false, [], []⟩
  returned : List SignalCall := []

/-- The task has released the mutex and is blocked, or will be: there has been no signal since it read the
sequence. -/
def Waits (state : Condition) (history : SignalHistory) (task : Word) : Bool :=
  match state.place task with
  | .blocked _ => true
  | .futexWait _ _ => history.seen task = history.signals
  | _ => false

/-- A signal or a broadcast that has returned did what it owes: if some tasks waited when it was called,
one of them, or each of them, has been unblocked meanwhile. -/
def SignalCall.Unblocks (call : SignalCall) : Prop :=
  if call.all then call.still = [] else call.waited ≠ [] → ∃ task ∈ call.waited, task ∉ call.still

instance (call : SignalCall) : Decidable call.Unblocks := by
  unfold SignalCall.Unblocks
  infer_instance

def SignalCall.strike (waits : Word → Bool) : SignalCall → SignalCall
  | ⟨all, waited, still⟩ => ⟨all, waited, still.filter waits⟩

namespace SignalHistory

def counted (history : SignalHistory) (state : Condition) : CondAction → SignalHistory
  | .act task =>
      match state.place task with
      | .sequence _ => { history with seen := Function.update history.seen task history.signals }
      | .fetchAdd _ => { history with signals := history.signals + 1 }
      | _ => history
  | _ => history

def called (history : SignalHistory) (tasks : List Word) (state : Condition) (task : Word)
    (all : Bool) : SignalHistory :=
  let waited := tasks.filter (Waits state history)
  { history with signal := Function.update history.signal task ⟨all, waited, waited⟩ }

def struck (history : SignalHistory) (next : Condition) : SignalHistory :=
  { history with signal := fun task => (history.signal task).strike (Waits next history) }

def returns (history : SignalHistory) (task : Word) : SignalHistory :=
  { history with returned := history.signal task :: history.returned }

def update (tasks : List Word) (state : Condition) (action : CondAction) (next : Condition)
    (history : SignalHistory) : SignalHistory :=
  match action with
  | .call task .cndSignal => (history.called tasks state task false).struck next
  | .call task .cndBroadcast => (history.called tasks state task true).struck next
  | .act task =>
      let after := (history.counted state action).struck next
      match state.place task with
      | .futexWake _ => after.returns task
      | _ => after
  | _ => history.struck next

end SignalHistory

abbrev signalSystem (tasks : List Word) : System (Condition × SignalHistory) CondAction :=
  (conditionSystem tasks).record {} (SignalHistory.update tasks)

end PicoToolkit
