import PicoToolkit.Scheduler.CoreData

/-!
The wakes that interrupt handlers have requested of a core.  Only `scheduler_futex_wake` and the drain
loop of `scheduler_switch` touch the slots and their counters.
-/

namespace PicoToolkit

open Ring Transition

structure Requests where
  slots : Nat → Option (Word × Bool)
  taken : Word
  given : Word

def CoreLocal.requests (coreLocal : CoreLocal) : Requests :=
  ⟨coreLocal.deferredWake, coreLocal.takenWakeCounter, coreLocal.givenWakeCounter⟩

def State.requests {R : Type → Type → Type} [Store R] {cores : Nat} (state : State R cores)
    (core : Fin cores) : Requests := (state.coreLocal core).requests

namespace Requests

def merges (slots : Nat → Option (Word × Bool)) (wakeup : Word × Bool) : Nat → Nat → Bool
  | 0, _ => false
  | fuel + 1, index =>
      match slots index with
      | none => false
      | some other => if other = wakeup then true else merges slots wakeup fuel (index + 1)

def give (requests : Requests) (wakeup : Word × Bool) : Requests :=
  match deferredSlot requests.slots wakeup schedulerMaxDeferedWake 0 with
  | none => requests
  | some index =>
      { requests with
        slots := Function.update requests.slots index (some wakeup)
        given := requests.given + 1 }

def take (requests : Requests) (index : Nat) : Requests :=
  { requests with
    slots := Function.update requests.slots index none
    taken := if (requests.slots index).isSome then requests.taken + 1 else requests.taken }

end Requests

section

variable {R : Type → Type → Type} [Store R] {cores : Nat}

/-- What `scheduler_futex_wake` returns to an interrupt handler. -/
def futexWakeStatus (core : Fin cores) (futex : Word) (all : Bool) (state : State R cores) :
    Result :=
  let flags := (state.futex futex).flags
  if flagSet flags schedulerFutexPi || flagSet flags schedulerFutexOwnerTracking then .error .einval
  else
    let slots := (state.requests core).slots
    if (deferredSlot slots (futex, all) schedulerMaxDeferedWake 0).isSome ||
        Requests.merges slots (futex, all) schedulerMaxDeferedWake 0 then .value 0
    else .error .enospc

def requestsAfter (state : State R cores) (core : Fin cores) (action : Action cores) : Requests :=
  let requests := state.requests core
  match action with
  | .interruptWake other futex all =>
      let flags := (state.futex futex).flags
      if other = core ∧
          ¬(flagSet flags schedulerFutexPi || flagSet flags schedulerFutexOwnerTracking) then
        requests.give (futex, all)
      else requests
  | .switchStep other =>
      match (state.coreLocal other).pc with
      | .drain index _ =>
          if other = core ∧ requests.taken ≠ requests.given ∧ index < schedulerMaxDeferedWake then
            requests.take index
          else requests
      | _ => requests
  | _ => requests

end

variable {cores : Nat} {state next : Plain cores} {core other : Fin cores} {task : Word}

theorem Untouched.requests {before after : CoreLocal} (untouched : Untouched before after) :
    after.requests = before.requests := by
  rw [CoreLocal.requests, untouched.deferredWake, untouched.takenWakeCounter, untouched.givenWakeCounter]
  rfl

theorem requests_setCore (change : CoreLocal → CoreLocal)
    (same : (change (state.coreLocal core)).requests = (state.coreLocal core).requests) :
    (state.setCore core change).requests other = state.requests other := by
  simp only [State.requests, State.setCore, Function.update_apply]
  split
  · rename_i isCore
    rw [same, isCore]
  · rfl

@[simp]
theorem requests_setTask (change : Task → Task) :
    (state.setTask task change).requests other = state.requests other := rfl

@[simp]
theorem requests_requestSwitch :
    (schedulerRequestSwitch core state).requests other = state.requests other :=
  requests_setCore _ rfl

@[simp]
theorem requests_setCurrent (current : Option Word) :
    (schedSetCurrent core current state).requests other = state.requests other :=
  requests_setCore _ rfl

@[simp]
theorem requests_setPc (pc : SwitchPc) :
    (setPc core pc state).requests other = state.requests other := requests_setCore _ rfl

theorem requests_tick [NeZero cores] :
    (schedulerTick core state).requests other = state.requests other := by
  have checked : ∀ state : Plain cores,
      (schedulerTickTimers core state).requests other = state.requests other := by
    intro state
    rw [schedulerTickTimers]
    split
    · exact requests_requestSwitch
    · rfl
  have counted : ∀ state : Plain cores,
      (schedulerTickSlice core state).requests other = state.requests other := by
    intro state
    simp only [schedulerTickSlice]
    split
    · split
      · rw [requests_requestSwitch, requests_setCore _ rfl]
      · exact requests_setCore _ rfl
    · rfl
  simp only [schedulerTick]
  split
  · rw [counted, checked, requests_setCore _ rfl]
  · rfl

theorem requests_switchEnter :
    (schedulerSwitchEnter core state).requests other = state.requests other := by
  have cleared : (schedSetCurrent core none (state.setCore core fun coreLocal =>
      { coreLocal with pendSv := false })).requests other = state.requests other := by
    rw [requests_setCurrent, requests_setCore _ rfl]
  simp only [schedulerSwitchEnter]
  split
  · rw [requests_setPc, cleared]
  · split
    · rw [requests_setCurrent, cleared]
    · rw [requests_setPc]
      exact cleared

theorem requests_switchIdle {lastTask : Option Word} :
    (schedulerSwitchIdle core lastTask state).requests other = state.requests other := by
  simp only [schedulerSwitchIdle]
  split
  · have stopped : ∀ state : Plain cores,
        (state.setCore core fun coreLocal =>
          { coreLocal with schedulerInitialFrame := some (.value 0), pc := .outside }).requests other =
        state.requests other := fun _ => requests_setCore _ rfl
    rw [schedulerStop, stopped]
    rfl
  · exact requests_setPc _

theorem requests_dispatch {lastTask : Option Word} :
    (schedulerDispatch core task lastTask state).requests other = state.requests other := by
  have kicked : ∀ state : Plain cores,
      (schedulerKickCores core state).requests other = state.requests other := by
    intro state
    simp only [schedulerKickCores, State.requests]
    split
    · rfl
    · rfl
  have occupied : ∀ state : Plain cores,
      (schedulerOccupy core task lastTask state).requests other = state.requests other := by
    intro state
    rw [schedulerOccupy]
    exact requests_setCore _ rfl
  rw [schedulerDispatch, kicked, occupied]
  rfl

theorem requests_switchPick {lastTask : Option Word} :
    (schedulerSwitchPick core lastTask state).requests other = state.requests other := by
  rw [schedulerSwitchPick]
  split
  · exact requests_switchIdle
  · rename_i ready popped found
    obtain ⟨first, _, same⟩ := Option.map_eq_some_iff.mp found
    obtain ⟨rfl, rfl⟩ := Prod.mk.inj same
    split
    · rw [requests_dispatch]
      rfl
    · rw [requests_switchIdle]
      rfl

theorem requests_switchTimers [NeZero cores] {lastTask : Option Word} :
    (schedulerSwitchTimers core lastTask state).requests other = state.requests other := by
  rw [schedulerSwitchTimers]
  split
  · exact requests_setPc _
  · rename_i expired popped found
    rw [timerPop_eq] at found
    obtain ⟨first, _, same⟩ := Option.map_eq_some_iff.mp found
    obtain ⟨rfl, rfl⟩ := Prod.mk.inj same
    rfl

theorem requests_switchDrain {index : Nat} {lastTask : Option Word}
    (done : schedulerSwitchDrain core index lastTask state = some next) :
    next.requests other =
      if core = other ∧ (state.requests other).taken ≠ (state.requests other).given ∧
          index < schedulerMaxDeferedWake then
        (state.requests other).take index
      else state.requests other := by
  simp only [schedulerSwitchDrain] at done
  by_cases isCore : core = other
  · subst isCore
    split at done
    · rename_i more
      rw [if_pos ⟨rfl, more⟩]
      split at done
      · rename_i free
        obtain rfl := Option.some_inj.mp done
        simp [State.requests, CoreLocal.requests, State.setCore, Requests.take, free]
      · rename_i futex all found
        obtain ⟨⟨after, woken⟩, served, rfl⟩ := Option.map_eq_some_iff.mp done
        have same := congrFun (coreLocal_wakeFutex served) core
        simp [State.requests, CoreLocal.requests, State.setCore, Requests.take, found, same]
    · rename_i none
      obtain rfl := Option.some_inj.mp done
      rw [if_neg fun all => none all.2, requests_setPc]
  · rw [if_neg fun all => isCore all.1]
    have apart : other ≠ core := fun same => isCore same.symm
    split at done
    · split at done
      · obtain rfl := Option.some_inj.mp done
        simp [State.requests, State.setCore, apart]
      · obtain ⟨⟨after, woken⟩, served, rfl⟩ := Option.map_eq_some_iff.mp done
        have same := congrFun (coreLocal_wakeFutex served) other
        simp only [State.setCore, Function.update_of_ne apart] at same
        simp [State.requests, State.setCore, apart, same]
    · obtain rfl := Option.some_inj.mp done
      exact requests_setPc _

theorem requests_step [NeZero cores] {action : Action cores}
    (done : step state action = some next) :
    next.requests core = requestsAfter state core action := by
  cases action with
  | tick ticker =>
      obtain rfl := Option.some_inj.mp done
      exact requests_tick
  | interruptWake handler futex all =>
      simp only [step, Option.ite_none_right_eq_some, Option.some_inj] at done
      obtain ⟨_, rfl⟩ := done
      simp only [schedulerFutexWakeDeferred, requestsAfter]
      by_cases isCore : handler = core
      · subst isCore
        split
        · rename_i refused
          rw [if_neg fun both => both.2 refused]
        · rename_i accepted
          rw [if_pos ⟨rfl, accepted⟩, Requests.give]
          simp only [State.requests, CoreLocal.requests]
          cases found : deferredSlot (state.coreLocal handler).deferredWake (futex, all)
              schedulerMaxDeferedWake 0 with
          | none => rfl
          | some index => simp [schedulerRequestSwitch, State.setCore]
      · have elsewhere : ¬(handler = core ∧ ¬(flagSet (state.futex futex).flags schedulerFutexPi ||
            flagSet (state.futex futex).flags schedulerFutexOwnerTracking)) := fun both => isCore both.1
        rw [if_neg elsewhere]
        have apart : core ≠ handler := fun same => isCore same.symm
        split
        · rfl
        · split
          · rfl
          · simp [State.requests, schedulerRequestSwitch, State.setCore, apart]
  | switchEnter switcher =>
      simp only [step, Option.ite_none_right_eq_some, Option.some_inj] at done
      obtain ⟨_, rfl⟩ := done
      exact requests_switchEnter
  | switchStep switcher =>
      simp only [step, schedulerSwitch] at done
      simp only [requestsAfter]
      split at done
      · cases done
      · rename_i index lastTask inside
        rw [inside]
        exact requests_switchDrain done
      · rename_i lastTask inside
        rw [inside]
        obtain rfl := Option.some_inj.mp done
        exact requests_switchTimers
      · rename_i lastTask inside
        rw [inside]
        obtain rfl := Option.some_inj.mp done
        exact requests_switchPick
      · rename_i lastTask inside
        rw [inside]
        split at done
        · obtain rfl := Option.some_inj.mp done
          exact requests_setCore _ rfl
        · cases done
  | _ => exact ((serves_step rfl done).untouched core).requests

end PicoToolkit
