import PicoToolkit.Futex.Deferred
import PicoToolkit.Futex.Outcome

/-!
What a wake leaves behind: a task whose wait is over and that has not run since, or a request in a
slot of some core.
-/

namespace PicoToolkit

open Ring Transition

def State.Asked {R : Type → Type → Type} [Store R] {cores : Nat} (state : State R cores)
    (futex : Word) : Prop :=
  ∃ core, ∃ index : Fin schedulerMaxDeferedWake, ∃ all,
    (state.requests core).slots index = some (futex, all)

instance {R : Type → Type → Type} [Store R] {cores : Nat} (state : State R cores) (futex : Word) :
    Decidable (state.Asked futex) := by
  unfold State.Asked
  infer_instance

def State.AskedFor {R : Type → Type → Type} [Store R] {cores : Nat} (state : State R cores)
    (futex : Word) (all : Bool) : Prop :=
  ∃ core, ∃ index : Fin schedulerMaxDeferedWake, (state.requests core).slots index = some (futex, all)

theorem State.AskedFor.asked {R : Type → Type → Type} [Store R] {cores : Nat} {state : State R cores}
    {futex : Word} {all : Bool} (asked : state.AskedFor futex all) : state.Asked futex := by
  obtain ⟨core, index, held⟩ := asked
  exact ⟨core, index, all, held⟩

def Outcome.succeeds : Outcome → Bool
  | .woken | .differed => true
  | _ => false

variable {cores : Nat} [NeZero cores] {state next : State Links cores} {action : Action cores}
  {outcomes : Word → Outcome} {task futex : Word}

theorem blocked_of_waits (reached : (scheduler cores).Reachable state)
    (waits : state.view.Waits task futex) : (state.task task).state = .blocked := by
  obtain ⟨_, abstractly⟩ := (scheduler_simulation cores).reachable reached
  exact (placed_of_reachable abstractly).blocked_iff.mpr ⟨futex, waits⟩

theorem notWaits_of_current {core : Fin cores}
    (reached : (scheduler cores).Reachable state) (runs : state.currentTask core = some task) :
    ¬state.view.Waits task futex := by
  obtain ⟨_, abstractly⟩ := (scheduler_simulation cores).reachable reached
  have running : (state.task task).state = .running :=
    (placed_of_reachable abstractly task).running.mpr ⟨core, runs⟩
  intro waits
  have blocked := blocked_of_waits reached waits
  rw [running] at blocked
  cases blocked

/-- A task that waits after a step waited before, or the step is its own wait, and finds the value
that it expects. -/
theorem waits_of_step
    (reached : (scheduler cores).Reachable state) (moved : step state action = some next)
    (waits : next.view.Waits task futex) :
    state.view.Waits task futex ∨ ∃ core expected ticks,
      action = .futexWait core futex expected ticks ∧ state.currentTask core = some task ∧
        (state.futexValue futex = expected ∨
          state.futexValue futex = waitValue (state.futex futex) expected) := by
  rcases View.waits_of_perform (view_transition reached moved).2 waits with old | ⟨expected, own⟩
  · exact Or.inl old
  · have source := event_from state action
    rw [own] at source
    obtain ⟨core, ticks, isWait⟩ := source
    exact Or.inr ⟨core, expected, ticks, isWait⟩

omit [NeZero cores] in
theorem answer_of_succeeds (agrees : (outcomes task).Agrees state.plain task)
    (succeeds : (outcomes task).succeeds) : state.answer task = .value 0 := by
  cases outcome : outcomes task with
  | woken | differed =>
      rw [outcome] at agrees
      exact agrees.answer
  | _ =>
      rw [outcome] at succeeds
      cases succeeds

/-- A step that suspends no waiter keeps all tasks in agreement with the outcomes of their waits. -/
theorem agrees_of_step (reached : (scheduler cores).Reachable state)
    (allowed : SuspendsNoWaiter state action)
    (agrees : ∀ task, (outcomes task).Agrees state.plain task)
    (moved : step state action = some next) :
    ∀ task, (outcomeAfter state action next outcomes task).Agrees next.plain task := by
  intro task
  obtain ⟨follows, abstractly⟩ := (scheduler_simulation cores).reachable reached
  have follow := ((scheduler_simulation cores).step _ _ _ follows abstractly moved).2
  have ordered : state.plain.view.Ordered := ordered_of_reachable reached
  rw [← outcomeAfter_plain]
  exact Outcome.Agrees.step (placed_of_reachable abstractly) ordered allowed (agrees task) follow

theorem notCaller_of_waits (reached : (scheduler cores).Reachable state)
    (waits : state.view.Waits task futex) :
    ¬∃ core ∈ action.caller, state.currentTask core = some task := by
  rintro ⟨core, _, runs⟩
  exact notWaits_of_current reached runs waits

theorem outcomeAfter_waiting (reached : (scheduler cores).Reachable state)
    (moved : step state action = some next) (waiting : outcomes task = .waiting futex)
    (before : state.view.Waits task futex) (after : next.view.Waits task futex) :
    outcomeAfter state action next outcomes task = .waiting futex := by
  obtain ⟨enabled, performed⟩ := view_transition reached moved
  unfold outcomeAfter
  rw [if_neg (notCaller_of_waits reached before)]
  cases happens : event state action with
  | create created priority =>
      rw [happens] at enabled
      by_cases same : task = created
      · subst same
        exact (enabled.2.1 futex before).elim
      · simp only [if_neg same, waiting]
  | exit exited =>
      rw [happens] at performed
      have view : state.view.exit exited = next.view := Option.some_inj.mp performed
      have different : task ≠ exited := by
        rw [← view] at after
        exact (View.waits_remove.mp after).2
      simp only [if_neg different, waiting]
  | depart departed =>
      rw [happens] at performed
      have view : state.view.remove departed = next.view := Option.some_inj.mp performed
      have different : task ≠ departed := by
        rw [← view] at after
        exact (View.waits_remove.mp after).2
      simp only [if_neg different, waiting]
  | wake woken all =>
      have stays : ¬(outcomes task = .waiting woken ∧ task ∉ next.queue (.waiters woken)) := by
        rintro ⟨same, gone⟩
        obtain rfl := Outcome.waiting.inj (same.symm.trans waiting)
        exact gone after
      simp only [if_neg stays]
      exact waiting
  | _ => exact waiting

theorem outcomeAfter_succeeds (away : ¬∃ core ∈ action.caller, state.currentTask core = some task)
    (stays : ∀ priority, event state action ≠ .create task priority)
    (lives : event state action ≠ .exit task) (succeeds : (outcomes task).succeeds) :
    (outcomeAfter state action next outcomes task).succeeds := by
  unfold outcomeAfter
  rw [if_neg away]
  cases happens : event state action with
  | create created priority =>
      have different : task ≠ created := fun same => stays priority (same ▸ happens)
      simpa only [if_neg different] using succeeds
  | exit exited =>
      have different : task ≠ exited := fun same => lives (same ▸ happens)
      simpa only [if_neg different] using succeeds
  | depart departed =>
      simp only
      split
      · cases outcome : outcomes task with
        | woken => rfl
        | differed => rfl
        | _ =>
            rw [outcome] at succeeds
            cases succeeds
      · exact succeeds
  | wake woken all =>
      simp only
      split
      · rfl
      · exact succeeds
  | _ => exact succeeds

theorem exists_woken (reached : (scheduler cores).Reachable state)
    (moved : step state action = some next) {all : Bool} (wakes : event state action = .wake futex all)
    (waiting : ∀ task, state.view.Waits task futex → outcomes task = .waiting futex)
    (waits : state.view.Waits task futex) :
    ∃ woken, state.view.Waits woken futex ∧
      (outcomeAfter state action next outcomes woken).succeeds := by
  have performed := (view_transition reached moved).2
  rw [wakes] at performed
  obtain ⟨popped, effect⟩ := View.exists_wakes performed
  cases chosen : popped with
  | nil => exact (effect.found chosen task waits).elim
  | cons woken rest =>
      have isPopped : woken ∈ popped := by simp [chosen]
      have before := effect.waited woken isPopped
      have gone : woken ∉ next.queue (.waiters futex) := by
        intro still
        exact ((effect.waits woken futex).mp still).2 isPopped
      refine ⟨woken, before, ?_⟩
      unfold outcomeAfter
      rw [if_neg (notCaller_of_waits reached before), wakes]
      simp only [if_pos (And.intro (waiting woken before) gone)]
      rfl

theorem slot_of_merges {slots : Nat → Option (Word × Bool)} {wakeup : Word × Bool}
    {fuel first : Nat} (merged : Requests.merges slots wakeup fuel first) :
    ∃ index < first + fuel, slots index = some wakeup := by
  induction fuel generalizing first with
  | zero => cases merged
  | succ fuel ih =>
      rw [Requests.merges] at merged
      split at merged
      · cases merged
      · rename_i other found
        split at merged
        · rename_i same
          exact ⟨first, by omega, same ▸ found⟩
        · obtain ⟨index, below, held⟩ := ih merged
          exact ⟨index, by omega, held⟩

theorem askedFor_of_interruptWake {core : Fin cores} {all : Bool}
    (reached : (scheduler cores).Reachable state)
    (succeeds : futexWakeStatus core futex all state = .value 0)
    (moved : step state (.interruptWake core futex all) = some next) : next.AskedFor futex all := by
  have after := @requests_transition cores _ state next core (.interruptWake core futex all) reached
    moved
  obtain ⟨given, fresh⟩ := slot_of_status succeeds
  rw [given] at after
  cases isNew : isFresh core (futex, all) state with
  | true =>
      obtain ⟨index, found⟩ := fresh isNew
      obtain ⟨below, _⟩ := Requests.deferredSlot_free found
      rw [Requests.give_of_slot found] at after
      refine ⟨core, ⟨index, by omega⟩, ?_⟩
      rw [after]
      exact Function.update_self index _ _
  | false =>
      have merged : Requests.merges (state.requests core).slots (futex, all)
          schedulerMaxDeferedWake 0 := by simpa [isFresh] using isNew
      obtain ⟨index, below, held⟩ := slot_of_merges merged
      refine ⟨core, ⟨index, by omega⟩, ?_⟩
      rw [after, Requests.give, Requests.deferredSlot_merges merged]
      exact held

theorem asked_of_interruptWake {core : Fin cores} {all : Bool}
    (reached : (scheduler cores).Reachable state)
    (succeeds : futexWakeStatus core futex all state = .value 0)
    (moved : step state (.interruptWake core futex all) = some next) : next.Asked futex :=
  (askedFor_of_interruptWake reached succeeds moved).asked

theorem Requests.slots_give {requests : Requests} {wakeup held : Word × Bool} {index : Nat}
    (found : requests.slots index = some held) :
    (requests.give wakeup).slots index = some held := by
  cases slot : deferredSlot requests.slots wakeup schedulerMaxDeferedWake 0 with
  | none => rwa [give, slot]
  | some free =>
      have different : index ≠ free := by
        rintro rfl
        rw [(deferredSlot_free slot).2] at found
        cases found
      rw [give_of_slot slot]
      exact (Function.update_of_ne different _ _).trans found

theorem askedFor_of_step (reached : (scheduler cores).Reachable state)
    (moved : step state action = some next) {all : Bool} (asked : state.AskedFor futex all) :
    next.AskedFor futex all ∨ event state action = .wake futex all := by
  obtain ⟨core, index, held⟩ := asked
  have after := @requests_transition cores _ state next core _ reached moved
  have stays : (next.requests core).slots index = some (futex, all) → next.AskedFor futex all :=
    fun held => ⟨core, index, held⟩
  cases action with
  | interruptWake other entry every =>
      refine Or.inl (stays ?_)
      simp only [requestsAfter] at after
      split at after
      · rw [after]
        exact Requests.slots_give held
      · rw [after]
        exact held
  | switchStep other =>
      cases inside : (state.coreLocal other).pc with
      | drain position lastTask =>
          simp only [requestsAfter, inside] at after
          split at after
          · rename_i taken
            obtain ⟨rfl, pending, below⟩ := taken
            by_cases same : position = index
            · refine Or.inr ?_
              have slot : (state.coreLocal other).deferredWake index = some (futex, all) := held
              simp only [event, switchEvent, inside, same, slot]
              exact if_pos ⟨pending, index.isLt⟩
            · refine Or.inl (stays ?_)
              rw [after]
              exact (Function.update_of_ne (Ne.symm same) _ _).trans held
          · rw [← after] at held
            exact Or.inl (stays held)
      | _ =>
          simp only [requestsAfter, inside] at after
          rw [← after] at held
          exact Or.inl (stays held)
  | _ =>
      refine Or.inl (stays ?_)
      rw [after]
      exact held

theorem asked_of_step (reached : (scheduler cores).Reachable state)
    (moved : step state action = some next) (asked : state.Asked futex) :
    next.Asked futex ∨ ∃ all, event state action = .wake futex all := by
  obtain ⟨core, index, all, held⟩ := asked
  rcases askedFor_of_step reached moved ⟨core, index, held⟩ with still | wakes
  · exact Or.inl still.asked
  · exact Or.inr ⟨all, wakes⟩

theorem notWaits_of_wakeAll (reached : (scheduler cores).Reachable state)
    (moved : step state action = some next) (wakes : event state action = .wake futex true)
    (untracked : ¬flagSet (state.futex futex).flags schedulerFutexOwnerTracking) :
    ¬next.view.Waits task futex := by
  have performed := (view_transition reached moved).2
  rw [wakes] at performed
  obtain ⟨popped, effect⟩ := View.exists_wakes performed
  intro waits
  obtain ⟨waited, spared⟩ := (effect.waits task futex).mp waits
  exact spared (effect.several ⟨rfl, untracked⟩ task waited)

end PicoToolkit
