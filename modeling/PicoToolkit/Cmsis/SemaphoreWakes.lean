import PicoToolkit.Cmsis.Semaphore
import PicoToolkit.Threads.Waking

/-!
Who waits for a token of a semaphore, and who will take the token or wake somebody to take it.
-/

namespace PicoToolkit

open Ring Transition Interleaving

def SemaphorePlace.isWait : SemaphorePlace → Bool
  | .acquire _ (.inl .wait) => true
  | _ => false

def SemaphorePlace.servesNext : SemaphorePlace → Bool
  | .acquire _ (.inl (.exchange _)) | .release (.inl .wake) => true
  | _ => false

section

variable {cores : Nat}

structure AtRest (semaphore : RtosSemaphore) (machine : Machine cores Unit SemaphorePlace) : Prop where
  blocked : ∀ call ∈ machine.calls, ((semaphoreProgram semaphore).op call.place).isSome →
    call.waiting ∧ ∃ task, call.owner = .task task ∧
      task ∈ machine.kernel.queue (.waiters semaphore.futex)
  noWake : ¬machine.kernel.Asked semaphore.futex

def LosesNoWake (semaphore : RtosSemaphore) (machine : Machine cores Unit SemaphorePlace) : Prop :=
  AtRest semaphore machine → machine.kernel.memory semaphore.value > 0 →
    machine.kernel.queue (.waiters semaphore.futex) = []

variable [NeZero cores]

/-- The rest of the system does not use the futex of the semaphore, and ends no task inside a call. -/
def LeavesAlone (semaphore : RtosSemaphore) (machine : Machine cores Unit SemaphorePlace) :
    Label cores SemaphoreCall → Prop
  | .kernel action =>
      SuspendsNoWaiter machine.kernel action ∧
        match event machine.kernel action with
        | .create task _ | .exit task => machine.inside (semaphoreProgram semaphore) task = false
        | .wait _ futex _ | .initFutex futex _ _ => futex ≠ semaphore.futex
        | _ => True
  | _ => True

instance (semaphore : RtosSemaphore) (machine : Machine cores Unit SemaphorePlace)
    (label : Label cores SemaphoreCall) : Decidable (LeavesAlone semaphore machine label) := by
  unfold LeavesAlone
  split
  · refine @instDecidableAnd _ _ inferInstance ?_
    split
    · infer_instance
    · infer_instance
    · infer_instance
    · infer_instance
    · infer_instance
  · infer_instance

def semaphoreAlone (cores : Nat) [NeZero cores] (semaphore : RtosSemaphore) (initialCount : Word) :
    System (Machine cores Unit SemaphorePlace) (Label cores SemaphoreCall) where
  initial machine := machine.Begins semaphore.cells (fun _ => initialCount) () ∧
    (machine.kernel.futex semaphore.futex).value = semaphore.value ∧
    machine.kernel.queue (.waiters semaphore.futex) = []
  step machine label :=
    if LeavesAlone semaphore machine label then
      Machine.step (semaphoreProgram semaphore) semaphore.cells machine label
    else none

/-- A release that finds a token finds nobody waiting, and a core accepts each request of a handler. -/
def WakesEnough (semaphore : RtosSemaphore) (machine : Machine cores Unit SemaphorePlace) :
    Label cores SemaphoreCall → Prop
  | .act core index =>
      match machine.calls[index]? with
      | some ⟨_, .release (.inl .add), _⟩ =>
          machine.kernel.memory semaphore.value = 0 ∨
            machine.kernel.queue (.waiters semaphore.futex) = []
      | some ⟨.handler _, .release (.inl .wake), _⟩ =>
          futexWakeStatus core semaphore.futex false machine.kernel = .value 0
      | _ => True
  | _ => True

instance (semaphore : RtosSemaphore) (machine : Machine cores Unit SemaphorePlace)
    (label : Label cores SemaphoreCall) : Decidable (WakesEnough semaphore machine label) := by
  unfold WakesEnough
  split
  · split
    · infer_instance
    · infer_instance
    · infer_instance
  · infer_instance

def WaitsForToken (machine : Machine cores Unit SemaphorePlace) (task : Word) : Prop :=
  ∃ call, machine.callOf task = some call ∧ call.place.isWait ∧ call.waiting

def Responsible (semaphore : RtosSemaphore) (machine : Machine cores Unit SemaphorePlace)
    (outcomes : Word → Outcome) : Prop :=
  (∃ call ∈ machine.calls, call.place.servesNext) ∨
    (∃ task, WaitsForToken machine task ∧ (outcomes task).succeeds) ∨
    machine.kernel.Asked semaphore.futex

structure Served (semaphore : RtosSemaphore) (machine : Machine cores Unit SemaphorePlace)
    (outcomes : Word → Outcome) : Prop where
  sound : machine.Sound semaphore.cells
  owns : machine.Owns
  guards : (machine.kernel.futex semaphore.futex).value = semaphore.value
  agrees : ∀ task, (outcomes task).Agrees machine.kernel.plain task
  waiters : ∀ task, machine.kernel.view.Waits task semaphore.futex →
    WaitsForToken machine task ∧ outcomes task = .waiting semaphore.futex
  covered : ∀ task, machine.kernel.view.Waits task semaphore.futex →
    machine.kernel.memory semaphore.value = 0 ∨
      machine.kernel.memory semaphore.value = 1 ∧ Responsible semaphore machine outcomes

def outcomesOf (semaphore : RtosSemaphore) (machine : Machine cores Unit SemaphorePlace)
    (label : Label cores SemaphoreCall) (next : Machine cores Unit SemaphorePlace)
    (outcomes : Word → Outcome) : Word → Outcome :=
  (machine.action (semaphoreProgram semaphore) label).elim outcomes fun action =>
    outcomeAfter machine.kernel action next.kernel outcomes

variable {semaphore : RtosSemaphore} {machine next : Machine cores Unit SemaphorePlace}
  {label : Label cores SemaphoreCall} {outcomes : Word → Outcome} {task : Word}

theorem op_of_isWait (semaphore : RtosSemaphore) {place : SemaphorePlace} (isWait : place.isWait) :
    ∃ timeout resume, place = .acquire timeout (.inl .wait) ∧
      (semaphoreProgram semaphore).op place =
        some (.service (.wait semaphore.futex 0 timeout) resume) ∧
      (resume (.value 0)).servesNext := by
  rcases place with ⟨timeout, (_ | _) | _⟩ | inner
  · cases isWait
  · exact ⟨timeout, _, rfl, rfl, rfl⟩
  · cases isWait
  · cases isWait

theorem op_of_servesNext (semaphore : RtosSemaphore) {place : SemaphorePlace}
    (serves : place.servesNext) :
    ((semaphoreProgram semaphore).op place).isSome ∧ ∀ futex expected ticks resume,
      (semaphoreProgram semaphore).op place ≠
        some (.service (.wait futex expected ticks) resume) := by
  rcases place with ⟨timeout, (_ | _) | _⟩ | ((_ | _ | _) | _)
  · exact ⟨rfl, fun _ _ _ _ same => by cases same⟩
  · cases serves
  · cases serves
  · cases serves
  · cases serves
  · exact ⟨rfl, fun _ _ _ _ same => by cases same⟩
  · cases serves

omit [NeZero cores] in
theorem inside_of_waitsForToken (waits : WaitsForToken machine task) :
    machine.inside (semaphoreProgram semaphore) task = true := by
  obtain ⟨call, isLast, isWait, _⟩ := waits
  obtain ⟨timeout, _, place, _⟩ := op_of_isWait semaphore isWait
  rw [Machine.inside, isLast, Option.any_some, place]
  rfl

inductive SemaphoreAction (semaphore : RtosSemaphore) (core : Fin cores)
    (call : Call cores SemaphorePlace) : Action cores → Prop
  | store (value : Word) : SemaphoreAction semaphore core call (.store semaphore.value value)
  | wait (timeout : Word) : call.place.isWait → call.waiting = false →
      SemaphoreAction semaphore core call (.futexWait core semaphore.futex 0 timeout)
  | wake (task : Word) : call.owner = .task task → call.place = .release (.inl .wake) →
      SemaphoreAction semaphore core call (.futexWake core semaphore.futex false)
  | request (other : Fin cores) : call.owner = .handler other → call.place = .release (.inl .wake) →
      SemaphoreAction semaphore core call (.interruptWake core semaphore.futex false)

omit [NeZero cores] in
theorem semaphoreAction_of_act {core : Fin cores} {index : Nat} {action : Action cores}
    (isAction : machine.action (semaphoreProgram semaphore) (.act core index) = some action) :
    ∃ call, machine.calls[index]? = some call ∧ SemaphoreAction semaphore core call action := by
  obtain ⟨call, found, isAction⟩ := Option.bind_eq_some_iff.mp isAction
  refine ⟨call, found, ?_⟩
  obtain ⟨op, isNext, isAction⟩ := Option.bind_eq_some_iff.mp isAction
  cases place : call.place with
  | acquire timeout inner =>
      rw [place] at isNext
      rcases inner with (expected | _) | status
      · obtain rfl := Option.some_inj.mp isNext
        obtain rfl := Option.some_inj.mp isAction
        exact .store _
      · obtain rfl := Option.some_inj.mp isNext
        simp only [osSemaphoreAcquire, Op.map] at isAction
        split at isAction
        · cases isAction
        · rename_i begins
          obtain rfl := Option.some_inj.mp isAction
          exact .wait timeout (by rw [place]; rfl) (Bool.eq_false_of_not_eq_true begins)
      · cases isNext
  | release inner =>
      rw [place] at isNext
      rcases inner with (_ | _ | _) | status
      · obtain rfl := Option.some_inj.mp isNext
        obtain rfl := Option.some_inj.mp isAction
        exact .store _
      · obtain rfl := Option.some_inj.mp isNext
        obtain rfl := Option.some_inj.mp isAction
        exact .store _
      · obtain rfl := Option.some_inj.mp isNext
        obtain rfl := Option.some_inj.mp isAction
        cases owner : call.owner with
        | task task => exact .wake task owner place
        | handler other => exact .request other owner place
      · cases isNext

theorem SemaphoreAction.harmless {core : Fin cores} {call : Call cores SemaphorePlace}
    {action : Action cores} (isAction : SemaphoreAction semaphore core call action)
    (kernel : State Links cores) :
    SuspendsNoWaiter kernel action ∧ (∀ task priority, event kernel action ≠ .create task priority) ∧
      (∀ task, event kernel action ≠ .exit task) ∧
      ∀ futex value flags, event kernel action ≠ .initFutex futex value flags := by
  have source := event_from kernel action
  refine ⟨?_, ?_, ?_, ?_⟩
  · cases isAction with
    | _ => trivial
  · intro task priority same
    rw [same] at source
    obtain ⟨creator, descriptor, rfl⟩ := source
    cases isAction
  · intro task same
    rw [same] at source
    rcases source with ⟨_, _, rfl, _⟩ | ⟨_, rfl⟩
    · cases isAction
    · cases isAction
  · intro futex value flags same
    rw [same] at source
    obtain rfl : action = .futexInit futex value flags := source
    cases isAction

theorem harmless_of_step (alone : LeavesAlone semaphore machine label)
    (moved : Machine.step (semaphoreProgram semaphore) semaphore.cells machine label = some next)
    {action : Action cores} (isAction : machine.action (semaphoreProgram semaphore) label = some action) :
    SuspendsNoWaiter machine.kernel action ∧
      (∀ task, WaitsForToken machine task →
        (∀ priority, event machine.kernel action ≠ .create task priority) ∧
          event machine.kernel action ≠ .exit task) ∧
      ∀ value flags, event machine.kernel action ≠ .initFutex semaphore.futex value flags := by
  cases label with
  | kernel other =>
      obtain rfl := Option.some_inj.mp isAction
      refine ⟨alone.1, fun task waits => ⟨fun priority same => ?_, fun same => ?_⟩, ?_⟩
      · have spared := alone.2
        simp only [same, inside_of_waitsForToken waits] at spared
        cases spared
      · have spared := alone.2
        simp only [same, inside_of_waitsForToken waits] at spared
        cases spared
      · intro value flags same
        have spared := alone.2
        rw [same] at spared
        exact spared rfl
  | act core index =>
      obtain ⟨call, _, isCall⟩ := semaphoreAction_of_act isAction
      obtain ⟨suspends, creates, exits, inits⟩ := isCall.harmless machine.kernel
      exact ⟨suspends, fun task _ => ⟨creates task, exits task⟩, inits semaphore.futex⟩
  | call core entry => cases isAction
  | interrupt core entry => cases isAction

theorem notCaller_of_waitsForToken
    (moved : Machine.step (semaphoreProgram semaphore) semaphore.cells machine label = some next)
    {action : Action cores} (isAction : machine.action (semaphoreProgram semaphore) label = some action)
    (waits : WaitsForToken machine task) :
    ¬∃ core ∈ action.caller, machine.kernel.currentTask core = some task := by
  rintro ⟨core, isCaller, runs⟩
  cases label with
  | kernel other =>
      obtain rfl := Option.some_inj.mp isAction
      have allowed := (Machine.calling_of_kernel moved).1
      have isCaller : other.caller = some core := isCaller
      simp [foreign, isCaller, runs, inside_of_waitsForToken waits] at allowed
  | act actor index =>
      obtain ⟨call, found, isCall⟩ := semaphoreAction_of_act isAction
      have acting := (Machine.act_found moved found).1
      obtain ⟨last, isLast, isWait, waiting⟩ := waits
      obtain ⟨position, isCalling, foundLast⟩ := Machine.callOf_eq.mp isLast
      have different : ∀ caller, call.owner = .task caller →
          machine.kernel.currentTask actor = some task → call = last := by
        intro caller owner current
        obtain ⟨isCurrent, callerCalls⟩ := Machine.current_of_runs acting owner
        obtain rfl : caller = task := Option.some_inj.mp (isCurrent.symm.trans current)
        obtain rfl := Option.some_inj.mp (callerCalls.symm.trans isCalling)
        exact Option.some_inj.mp (found.symm.trans foundLast)
      cases isCall with
      | store value => cases isCaller
      | request other owner place => cases isCaller
      | wait timeout atWait begins =>
          obtain rfl : actor = core := Option.some_inj.mp isCaller
          obtain ⟨_, _, _, isNext, _⟩ := op_of_isWait semaphore atWait
          obtain ⟨caller, owner, _⟩ := Machine.act_wait isNext (Machine.act_found moved found).2
          rw [different caller owner runs, waiting] at begins
          cases begins
      | wake caller owner place =>
          obtain rfl : actor = core := Option.some_inj.mp isCaller
          rw [← different caller owner runs, place] at isWait
          cases isWait
  | call core entry => cases isAction
  | interrupt core entry => cases isAction

theorem waitsForToken_of_waits (owns : machine.Owns)
    (reached : (scheduler cores).Reachable machine.kernel)
    (moved : Machine.step (semaphoreProgram semaphore) semaphore.cells machine label = some next)
    (isWaiter : machine.kernel.view.Waits task semaphore.futex) (waits : WaitsForToken machine task) :
    WaitsForToken next task := by
  rw [WaitsForToken, Machine.callOf_of_waits owns reached moved isWaiter]
  exact waits

theorem Served.matched (served : Served semaphore machine outcomes)
    (matched : machine.kernel.futexValue semaphore.futex = 0 ∨
      machine.kernel.futexValue semaphore.futex = waitValue (machine.kernel.futex semaphore.futex) 0) :
    machine.kernel.memory semaphore.value = 0 := by
  have isCell : semaphore.cells (machine.kernel.futex semaphore.futex).value := by
    simp [RtosSemaphore.cells, served.guards]
  have flags := served.sound.untracked _ isCell
  have plain : waitValue (machine.kernel.futex semaphore.futex) 0 = 0 := by
    simp [waitValue, flagSet, flags]
  rw [plain, or_self, State.futexValue, served.guards] at matched
  exact matched

theorem Served.waiters_step (served : Served semaphore machine outcomes)
    (alone : LeavesAlone semaphore machine label)
    (moved : Machine.step (semaphoreProgram semaphore) semaphore.cells machine label = some next)
    (waits : next.kernel.view.Waits task semaphore.futex) :
    (WaitsForToken next task ∧
      outcomesOf semaphore machine label next outcomes task = .waiting semaphore.futex) ∧
    (machine.kernel.view.Waits task semaphore.futex ∨
      machine.kernel.memory semaphore.value = 0) := by
  have reached := served.sound.reached
  have kernel := Machine.kernel_of_step moved
  simp only [outcomesOf]
  cases isAction : machine.action (semaphoreProgram semaphore) label with
  | none =>
      rw [isAction] at kernel
      rw [kernel] at waits
      obtain ⟨before, outcome⟩ := served.waiters task waits
      exact ⟨⟨waitsForToken_of_waits served.owns reached moved waits before, outcome⟩, Or.inl waits⟩
  | some action =>
      rw [isAction] at kernel
      simp only [Option.elim_some] at kernel ⊢
      rcases waits_of_step reached kernel waits with old | ⟨core, expected, ticks, rfl, runs, matched⟩
      · obtain ⟨before, outcome⟩ := served.waiters task old
        exact ⟨⟨waitsForToken_of_waits served.owns reached moved old before,
          outcomeAfter_waiting reached kernel outcome old waits⟩, Or.inl old⟩
      · cases label with
        | kernel other =>
            obtain rfl := Option.some_inj.mp isAction
            have spared := alone.2
            have current : schedGetCurrent core machine.kernel = some task := runs
            simp only [event, current, if_pos matched] at spared
            exact (spared rfl).elim
        | act actor index =>
            obtain ⟨call, found, isCall⟩ := semaphoreAction_of_act isAction
            obtain ⟨acting, acted⟩ := Machine.act_found moved found
            cases isCall with
            | wait timeout isWait begins =>
                obtain ⟨_, _, _, isNext, _⟩ := op_of_isWait semaphore isWait
                obtain ⟨caller, owner, happens⟩ := Machine.act_wait isNext acted
                obtain ⟨isCurrent, callerCalls⟩ := Machine.current_of_runs acting owner
                obtain rfl : caller = task := Option.some_inj.mp (isCurrent.symm.trans runs)
                rcases happens with ⟨begun, _⟩ | ⟨_, after, stepped, rfl⟩
                · rw [begins] at begun
                  cases begun
                · have bound : index < machine.calls.length :=
                    (List.getElem?_eq_some_iff.mp found).1
                  refine ⟨⟨⟨{ call with waiting := true }, ?_, isWait, rfl⟩, ?_⟩, Or.inr ?_⟩
                  · simp [Machine.callOf, callerCalls, bound]
                  · unfold outcomeAfter
                    rw [if_pos ⟨core, rfl, runs⟩]
                    exact if_pos matched
                  · exact served.matched matched
        | call core entry => cases isAction
        | interrupt core entry => cases isAction

def MovesResponsible (machine : Machine cores Unit SemaphorePlace) (outcomes : Word → Outcome)
    (label : Label cores SemaphoreCall) : Prop :=
  ∃ core index call, label = .act core index ∧ machine.calls[index]? = some call ∧
    (call.place.servesNext ∨ call.place.isWait ∧ call.waiting ∧
      ∃ task, call.owner = .task task ∧ (outcomes task).succeeds)

theorem Responsible.keeps (responsible : Responsible semaphore machine outcomes)
    (owns : machine.Owns) (reached : (scheduler cores).Reachable machine.kernel)
    (alone : LeavesAlone semaphore machine label)
    (moved : Machine.step (semaphoreProgram semaphore) semaphore.cells machine label = some next) :
    Responsible semaphore next (outcomesOf semaphore machine label next outcomes) ∨
      MovesResponsible machine outcomes label ∨
      ∃ action all, machine.action (semaphoreProgram semaphore) label = some action ∧
        event machine.kernel action = .wake semaphore.futex all := by
  have kernel := Machine.kernel_of_step moved
  rcases responsible with ⟨call, member, serves⟩ | ⟨task, waits, succeeds⟩ | asked
  · cases label with
    | kernel action =>
        obtain ⟨_, _, calls, _⟩ := Machine.calling_of_kernel moved
        exact Or.inl (Or.inl ⟨call, calls ▸ member, serves⟩)
    | call core entry =>
        obtain ⟨caller, _, _, rfl⟩ := Machine.calls_of_call moved
        exact Or.inl (Or.inl ⟨call, List.mem_append_left _ member, serves⟩)
    | interrupt core entry =>
        obtain rfl := Option.some_inj.mp moved
        exact Or.inl (Or.inl ⟨call, List.mem_append_left _ member, serves⟩)
    | act core index =>
        obtain ⟨acting, moving, found, _, calls, _⟩ := Machine.calls_of_act moved
        obtain ⟨position, foundCall⟩ := List.mem_iff_getElem?.mp member
        by_cases same : index = position
        · subst same
          obtain rfl := Option.some_inj.mp (found.symm.trans foundCall)
          exact Or.inr (Or.inl ⟨core, index, acting, rfl, found, Or.inl serves⟩)
        · refine Or.inl (Or.inl ⟨call, ?_, serves⟩)
          rw [calls]
          exact List.mem_of_getElem? ((List.getElem?_set_ne same).trans foundCall)
  · have after : (outcomesOf semaphore machine label next outcomes task).succeeds := by
      simp only [outcomesOf]
      cases isAction : machine.action (semaphoreProgram semaphore) label with
      | none => exact succeeds
      | some action =>
          obtain ⟨_, spared, _⟩ := harmless_of_step alone moved isAction
          obtain ⟨creates, exits⟩ := spared task waits
          exact outcomeAfter_succeeds (notCaller_of_waitsForToken moved isAction waits) creates exits
            succeeds
    rcases Machine.callOf_of_step owns moved task with same | ⟨creator, descriptor, rfl⟩ |
        ⟨core, entry, rfl, _, idle⟩ | ⟨core, index, call, rfl, isCalling, found, owner, _⟩
    · refine Or.inl (Or.inr (Or.inl ⟨task, ?_, after⟩))
      rw [WaitsForToken, same]
      exact waits
    · have spared := (harmless_of_step alone moved rfl).2.1 task waits
      exact (spared.1 descriptor.priority rfl).elim
    · rw [Machine.busy_of_inside (inside_of_waitsForToken waits)] at idle
      cases idle
    · obtain ⟨last, isLast, isWait, waiting⟩ := waits
      obtain rfl : call = last := by
        have isCall : machine.callOf task = some call := Machine.callOf_eq.mpr ⟨index, isCalling, found⟩
        exact Option.some_inj.mp (isCall.symm.trans isLast)
      exact Or.inr (Or.inl ⟨core, index, call, rfl, found,
        Or.inr ⟨isWait, waiting, task, owner, succeeds⟩⟩)
  · cases isAction : machine.action (semaphoreProgram semaphore) label with
    | none =>
        rw [isAction] at kernel
        exact Or.inl (Or.inr (Or.inr (kernel ▸ asked)))
    | some action =>
        rw [isAction] at kernel
        rcases asked_of_step reached kernel asked with still | ⟨all, wakes⟩
        · exact Or.inl (Or.inr (Or.inr still))
        · exact Or.inr (Or.inr ⟨action, all, rfl, wakes⟩)

theorem Served.woken (served : Served semaphore machine outcomes)
    (moved : Machine.step (semaphoreProgram semaphore) semaphore.cells machine label = some next)
    {action : Action cores} {all : Bool}
    (isAction : machine.action (semaphoreProgram semaphore) label = some action)
    (wakes : event machine.kernel action = .wake semaphore.futex all)
    (waits : machine.kernel.view.Waits task semaphore.futex) :
    Responsible semaphore next (outcomesOf semaphore machine label next outcomes) := by
  have reached := served.sound.reached
  have kernel := Machine.kernel_of_step moved
  rw [isAction] at kernel
  obtain ⟨woken, before, succeeds⟩ :=
    exists_woken reached kernel wakes (fun task waits => (served.waiters task waits).2) waits
  refine Or.inr (Or.inl ⟨woken, ?_, ?_⟩)
  · exact waitsForToken_of_waits served.owns reached moved before (served.waiters woken before).1
  · rw [outcomesOf, isAction]
    exact succeeds

theorem Served.memory_step (served : Served semaphore machine outcomes)
    (moved : Machine.step (semaphoreProgram semaphore) semaphore.cells machine label = some next)
    (stores : ∀ value, machine.action (semaphoreProgram semaphore) label ≠
      some (.store semaphore.value value)) :
    next.kernel.memory semaphore.value = machine.kernel.memory semaphore.value := by
  have kernel := Machine.kernel_of_step moved
  cases isAction : machine.action (semaphoreProgram semaphore) label with
  | none =>
      rw [isAction] at kernel
      rw [kernel]
  | some action =>
      rw [isAction] at kernel
      refine memory_of_step served.sound.reached kernel served.sound.untracked ?_ ?_
      · simp [RtosSemaphore.cells]
      · rintro value rfl
        exact stores value isAction

theorem Served.covered_step (served : Served semaphore machine outcomes)
    (alone : LeavesAlone semaphore machine label)
    (moved : Machine.step (semaphoreProgram semaphore) semaphore.cells machine label = some next)
    (same : next.kernel.memory semaphore.value = machine.kernel.memory semaphore.value)
    (moves : MovesResponsible machine outcomes label →
      machine.kernel.view.Waits task semaphore.futex → machine.kernel.memory semaphore.value ≠ 0 →
        Responsible semaphore next (outcomesOf semaphore machine label next outcomes))
    (waits : next.kernel.view.Waits task semaphore.futex) :
    next.kernel.memory semaphore.value = 0 ∨ next.kernel.memory semaphore.value = 1 ∧
      Responsible semaphore next (outcomesOf semaphore machine label next outcomes) := by
  rw [same]
  by_cases empty : machine.kernel.memory semaphore.value = 0
  · exact Or.inl empty
  · obtain ⟨_, before⟩ := served.waiters_step alone moved waits
    have before := before.resolve_right empty
    obtain ⟨one, responsible⟩ := (served.covered task before).resolve_left empty
    refine Or.inr ⟨one, ?_⟩
    rcases responsible.keeps served.owns served.sound.reached alone moved with still | own |
        ⟨action, all, isAction, wakes⟩
    · exact still
    · exact moves own before empty
    · exact served.woken moved isAction wakes before

theorem Served.taken (served : Served semaphore machine outcomes)
    (waits : machine.kernel.view.Waits task semaphore.futex)
    (found : machine.kernel.memory semaphore.value ≠ 0) :
    machine.kernel.memory semaphore.value - 1 = 0 := by
  have one := ((served.covered task waits).resolve_left found).1
  rw [one]
  rfl

theorem Served.covered_acquire (served : Served semaphore machine outcomes) {core : Fin cores}
    {index : Nat} {call : Call cores SemaphorePlace} {timeout : Word} {place : AcquirePlace}
    (found : machine.calls[index]? = some call) (atPlace : call.place = .acquire timeout (.inl place))
    (moved : Machine.step (semaphoreProgram semaphore) semaphore.cells machine (.act core index) =
      some next)
    (waits : next.kernel.view.Waits task semaphore.futex) :
    next.kernel.memory semaphore.value = 0 ∨ next.kernel.memory semaphore.value = 1 ∧
      Responsible semaphore next (outcomesOf semaphore machine (.act core index) next outcomes) := by
  have alone : LeavesAlone semaphore machine (.act core index) := trivial
  obtain ⟨acting, acted⟩ := Machine.act_found moved found
  have isNext : (semaphoreProgram semaphore).op call.place =
      some ((osSemaphoreAcquire semaphore timeout place).map (.acquire timeout)) := by
    rw [atPlace]
    rfl
  cases place with
  | exchange expected =>
      obtain ⟨value, moving, member, goesTo⟩ := Machine.word_of_act found isNext acted
      by_cases matched : machine.kernel.memory semaphore.value = expected
      · have token : machine.kernel.memory semaphore.value ≠ 0 := matched.trans_ne expected.property
        obtain ⟨_, before⟩ := served.waiters_step alone moved waits
        simp only [← matched] at value
        exact Or.inl (value.trans (served.taken (before.resolve_right token) token))
      · refine served.covered_step alone moved ?_ ?_ waits
        · rw [value]
          simp only [if_neg matched]
          split
          · rfl
          · rfl
        · intro _ _ token
          simp only [if_neg matched, dif_neg token] at goesTo
          exact Or.inl ⟨moving, member, goesTo ▸ rfl⟩
  | wait =>
      refine served.covered_step alone moved ?_ ?_ waits
      · exact served.memory_step moved fun value => Machine.action_of_service found isNext
      · rintro ⟨_, _, other, same, foundOther, moves⟩ _ _
        cases same
        obtain rfl := Option.some_inj.mp (found.symm.trans foundOther)
        rcases moves with serves | ⟨isWait, waiting, caller, owner, succeeds⟩
        · rw [atPlace] at serves
          cases serves
        · obtain ⟨_, resume, _, isWaitNext, goesOn⟩ := op_of_isWait semaphore isWait
          obtain ⟨other, sameOwner, happens⟩ := Machine.act_wait isWaitNext acted
          obtain rfl := Owner.task.inj (sameOwner.symm.trans owner)
          rcases happens with ⟨_, rfl⟩ | ⟨begins, _⟩
          · have answer := answer_of_succeeds (served.agrees other) succeeds
            rw [answer]
            have bound : index < machine.calls.length := (List.getElem?_eq_some_iff.mp found).1
            exact Or.inl ⟨_, List.mem_set bound _, goesOn⟩
          · rw [waiting] at begins
            cases begins

theorem Served.covered_release (served : Served semaphore machine outcomes) {core : Fin cores}
    {index : Nat} {call : Call cores SemaphorePlace} {place : ReleasePlace}
    (found : machine.calls[index]? = some call) (atPlace : call.place = .release (.inl place))
    (enough : WakesEnough semaphore machine (.act core index))
    (moved : Machine.step (semaphoreProgram semaphore) semaphore.cells machine (.act core index) =
      some next)
    (waits : next.kernel.view.Waits task semaphore.futex) :
    next.kernel.memory semaphore.value = 0 ∨ next.kernel.memory semaphore.value = 1 ∧
      Responsible semaphore next (outcomesOf semaphore machine (.act core index) next outcomes) := by
  have alone : LeavesAlone semaphore machine (.act core index) := trivial
  obtain ⟨acting, acted⟩ := Machine.act_found moved found
  obtain ⟨owner, _, waiting⟩ := call
  obtain rfl := atPlace
  have isNext : (semaphoreProgram semaphore).op (.release (.inl place)) =
      some ((osSemaphoreRelease semaphore place).map .release) := rfl
  have rests : place ≠ .wake → ¬MovesResponsible machine outcomes (.act core index) := by
    rintro notWake ⟨_, _, other, same, foundOther, moves⟩
    cases same
    obtain rfl := Option.some_inj.mp (found.symm.trans foundOther)
    rcases moves with serves | ⟨isWait, _⟩
    · cases place with
      | wake => exact notWake rfl
      | _ => cases serves
    · cases isWait
  cases place with
  | check =>
      obtain ⟨value, _⟩ := Machine.word_of_act found isNext acted
      refine served.covered_step alone moved value ?_ waits
      exact fun moves => (rests nofun moves).elim
  | add =>
      obtain ⟨value, moving, member, goesTo⟩ := Machine.word_of_act found isNext acted
      simp only [WakesEnough, found] at enough
      obtain ⟨_, before⟩ := served.waiters_step alone moved waits
      have empty : machine.kernel.memory semaphore.value = 0 := by
        rcases enough with empty | nobody
        · exact empty
        · refine before.resolve_left fun waited => ?_
          have member : task ∈ machine.kernel.queue (.waiters semaphore.futex) := waited
          rw [nobody] at member
          cases member
      simp only [empty] at value goesTo
      exact Or.inr ⟨value, Or.inl ⟨moving, member, goesTo ▸ rfl⟩⟩
  | wake =>
      have kernel := Machine.kernel_of_step moved
      refine served.covered_step alone moved ?_ ?_ waits
      · exact served.memory_step moved fun value => Machine.action_of_service found isNext
      · intro _ before _
        cases owner with
        | task caller =>
            have isAction : machine.action (semaphoreProgram semaphore) (.act core index) =
                some (.futexWake core semaphore.futex false) := by
              simp only [Machine.action, found, Option.bind_some]
              rfl
            exact served.woken moved isAction rfl before
        | handler other =>
            have isAction : machine.action (semaphoreProgram semaphore) (.act core index) =
                some (.interruptWake core semaphore.futex false) := by
              simp only [Machine.action, found, Option.bind_some]
              rfl
            rw [isAction] at kernel
            simp only [WakesEnough, found] at enough
            exact Or.inr (Or.inr (asked_of_interruptWake served.sound.reached enough kernel))

theorem Served.step (served : Served semaphore machine outcomes)
    (alone : LeavesAlone semaphore machine label) (enough : WakesEnough semaphore machine label)
    (moved : Machine.step (semaphoreProgram semaphore) semaphore.cells machine label = some next) :
    Served semaphore next (outcomesOf semaphore machine label next outcomes) := by
  have reached := served.sound.reached
  have kernel := Machine.kernel_of_step moved
  refine ⟨(Machine.step_shared (confined_semaphoreProgram semaphore) served.sound moved).1,
    served.owns.step moved, ?_, ?_, fun task waits => (served.waiters_step alone moved waits).1, ?_⟩
  · cases isAction : machine.action (semaphoreProgram semaphore) label with
    | none =>
        rw [isAction] at kernel
        exact kernel ▸ served.guards
    | some action =>
        rw [isAction] at kernel
        obtain ⟨_, _, inits⟩ := harmless_of_step alone moved isAction
        have same := View.futex_of_perform (view_transition reached kernel).2 inits
        exact (congrArg Futex.value same).trans served.guards
  · simp only [outcomesOf]
    cases isAction : machine.action (semaphoreProgram semaphore) label with
    | none =>
        rw [isAction] at kernel
        exact kernel ▸ served.agrees
    | some action =>
        rw [isAction] at kernel
        exact agrees_of_step reached (harmless_of_step alone moved isAction).1 served.agrees kernel
  · intro task waits
    have rests : (∀ core index, label ≠ .act core index) → (∀ value,
        machine.action (semaphoreProgram semaphore) label ≠ some (.store semaphore.value value)) →
        next.kernel.memory semaphore.value = 0 ∨ next.kernel.memory semaphore.value = 1 ∧
          Responsible semaphore next (outcomesOf semaphore machine label next outcomes) := by
      intro notAct notStore
      refine served.covered_step alone moved (served.memory_step moved notStore) ?_ waits
      rintro ⟨core, index, _, rfl, _⟩
      exact (notAct core index rfl).elim
    cases label with
    | kernel action =>
        refine rests (fun _ _ same => by cases same) ?_
        intro value isStore
        obtain rfl := Option.some_inj.mp isStore
        have spares := (Machine.calling_of_kernel moved).1
        simp [foreign, Action.spares, RtosSemaphore.cells] at spares
    | call core entry => exact rests (fun _ _ same => by cases same) fun _ same => by cases same
    | interrupt core entry => exact rests (fun _ _ same => by cases same) fun _ same => by cases same
    | act core index =>
        obtain ⟨call, _, found, _⟩ := Machine.calls_of_act moved
        have acted := (Machine.act_found moved found).2
        cases place : call.place with
        | acquire timeout inner =>
            cases inner with
            | inl inner => exact served.covered_acquire found place moved waits
            | inr status =>
                simp only [Machine.act, place] at acted
                cases acted
        | release inner =>
            cases inner with
            | inl inner => exact served.covered_release found place enough moved waits
            | inr status =>
                simp only [Machine.act, place] at acted
                cases acted

/-- In every run whose releases wake enough, somebody is responsible for the token that waiters may
have overlooked, and only calls that wait have begun to. -/
theorem served_of_guarded {initialCount : Word}
    (reached : (semaphoreAlone cores semaphore initialCount).Guarded (WakesEnough semaphore) machine) :
    (∃ outcomes, Served semaphore machine outcomes) ∧
      ∀ call ∈ machine.calls, call.waiting → ∃ futex expected ticks resume,
        (semaphoreProgram semaphore).op call.place =
          some (.service (.wait futex expected ticks) resume) := by
  induction reached with
  | @start machine begins =>
      obtain ⟨begins, guards, nobody⟩ := begins
      have unwaited : ∀ task, ¬machine.kernel.view.Waits task semaphore.futex :=
        List.eq_nil_iff_forall_not_mem.mp nobody
      refine ⟨⟨fun _ => .idle, ⟨begins.kernel, begins.untracked⟩, begins.owns, guards,
        fun _ => trivial, ?_, ?_⟩, ?_⟩
      · exact fun task waits => (unwaited task waits).elim
      · exact fun task waits => (unwaited task waits).elim
      · intro call member
        rw [begins.calls] at member
        cases member
  | step before enough moved ih =>
      obtain ⟨alone, moved⟩ := Option.ite_none_right_eq_some.mp moved
      obtain ⟨⟨outcomes, served⟩, atWait⟩ := ih
      exact ⟨⟨_, served.step alone enough moved⟩, Machine.atWait_of_step atWait moved⟩

/-- As long as no release finds a token and a waiter, and no request of a handler is refused, nobody
waits for a semaphore at rest that has a token. -/
theorem losesNoWake_of_guarded {initialCount : Word}
    (reached : (semaphoreAlone cores semaphore initialCount).Guarded (WakesEnough semaphore) machine) :
    LosesNoWake semaphore machine := by
  obtain ⟨⟨outcomes, served⟩, atWait⟩ := served_of_guarded reached
  intro atRest token
  refine List.eq_nil_iff_forall_not_mem.mpr fun task waits => ?_
  have some : machine.kernel.memory semaphore.value ≠ 0 := by bv_omega
  obtain ⟨_, responsible⟩ := (served.covered task waits).resolve_left some
  rcases responsible with ⟨call, member, serves⟩ | ⟨awake, ⟨call, isLast, isWait, waiting⟩, succeeds⟩ |
      asked
  · obtain ⟨unfinished, notWait⟩ := op_of_servesNext semaphore serves
    obtain ⟨futex, expected, ticks, resume, isNext⟩ :=
      atWait call member (atRest.blocked call member unfinished).1
    exact notWait futex expected ticks resume isNext
  · obtain ⟨index, isCalling, found⟩ := Machine.callOf_eq.mp isLast
    obtain ⟨_, foundOwn, owner⟩ := served.owns awake index isCalling
    obtain rfl := Option.some_inj.mp (found.symm.trans foundOwn)
    obtain ⟨_, _, _, isNext, _⟩ := op_of_isWait semaphore isWait
    obtain ⟨_, blocked, sameOwner, isQueued⟩ :=
      atRest.blocked call (List.mem_of_getElem? found) (by rw [isNext]; rfl)
    obtain rfl := Owner.task.inj (sameOwner.symm.trans owner)
    rw [(served.waiters _ isQueued).2] at succeeds
    cases succeeds
  · exact atRest.noWake asked

end

theorem exists_semaphoreAlone (semaphore : RtosSemaphore) (initialCount : Word)
    (guard : Machine 1 Unit SemaphorePlace → Label 1 SemaphoreCall → Prop)
    [∀ machine label, Decidable (guard machine label)] (setup : List (Action 1))
    (labels : List (Label 1 SemaphoreCall)) (check : Machine 1 Unit SemaphorePlace → Prop)
    [DecidablePred check]
    (found : ((scheduler 1).run (fun _ action => action.plain [semaphore.value] = true)
        (bootState 1) setup).any fun state =>
      [semaphore.value].all (fun address => decide (state.memory address = initialCount)) &&
        decide ((state.futex semaphore.futex).value = semaphore.value ∧
          state.queue (.waiters semaphore.futex) = []) &&
        ((semaphoreAlone 1 semaphore initialCount).run guard ⟨state, (), [], fun _ => none⟩
          labels).any fun final => decide (check final)) :
    ∃ machine, (semaphoreAlone 1 semaphore initialCount).Guarded guard machine ∧ check machine := by
  obtain ⟨state, prepared, found⟩ := (Option.any_eq_true _ _).mp found
  obtain ⟨ready, found⟩ := (Bool.and_eq_true _ _).mp found
  obtain ⟨initially, isSetUp⟩ := (Bool.and_eq_true _ _).mp ready
  obtain ⟨final, performed, checked⟩ := (Option.any_eq_true _ _).mp found
  have begins := @begins_of_setup Unit SemaphorePlace _ _ _ _ prepared initially ()
  exact ⟨final, System.run_guarded (.start ⟨begins, of_decide_eq_true isSetUp⟩) performed,
    of_decide_eq_true checked⟩

def threeTokens : RtosSemaphore := { maxCount := 3, value := 0x104, futex := 0x100 }

theorem losesNoWake_of_guarded_released :
    ∃ machine : Machine 1 Unit SemaphorePlace, AtRest threeTokens machine ∧
      machine.kernel.memory threeTokens.value = 1 ∧
      machine.kernel.queue (.waiters threeTokens.futex) = [] := by
  obtain ⟨machine, reached, places, one, noWake⟩ := exists_semaphoreAlone threeTokens 0
    (WakesEnough threeTokens)
    ([.create 0 0x1000 { flags := schedulerPrimordialTask, priority := 32 },
      .create 0 0x2000 { priority := 31 }, .futexInit 0x100 0x104 0, .start 0] ++ switchPass)
    (List.flatten [[.call 0 (.osSemaphoreAcquire schedulerWaitForever)], List.replicate 2 (.act 0 0),
      switchPass.map .kernel, [.call 0 .osSemaphoreRelease], List.replicate 3 (.act 0 1),
      switchPass.map .kernel, List.replicate 2 (.act 0 0), [.call 0 .osSemaphoreRelease],
      List.replicate 3 (.act 0 2)])
    (fun machine => machine.calls.map Call.place =
        [.acquire schedulerWaitForever (.inr .osOK), .release (.inr .osOK), .release (.inr .osOK)] ∧
      machine.kernel.memory threeTokens.value = 1 ∧ ¬machine.kernel.Asked threeTokens.futex)
    (by decide)
  have atRest : AtRest threeTokens machine := by
    refine ⟨fun call member unfinished => ?_, noWake⟩
    have isPlace := places ▸ List.mem_map_of_mem member
    simp only [List.mem_cons, List.not_mem_nil, or_false] at isPlace
    rcases isPlace with done | done | done
    · rw [done] at unfinished
      cases unfinished
    · rw [done] at unfinished
      cases unfinished
    · rw [done] at unfinished
      cases unfinished
  have token : machine.kernel.memory threeTokens.value > 0 := by
    rw [one]
    decide
  exact ⟨machine, atRest, one, losesNoWake_of_guarded reached atRest token⟩

/-- A thread that is more urgent than two waiters releases the semaphore twice: one waiter is woken, and
takes one of the tokens. -/
theorem not_losesNoWake :
    ¬∀ machine : Machine 1 Unit SemaphorePlace,
      (semaphoreAlone 1 threeTokens 0).Reachable machine → LosesNoWake threeTokens machine := by
  intro never
  obtain ⟨machine, reached, calls, one, queue, noWake⟩ := exists_semaphoreAlone threeTokens 0
    (fun _ _ => True)
    ([.create 0 0x1000 { flags := schedulerPrimordialTask, priority := 33 },
      .create 0 0x2000 { priority := 32 }, .create 0 0x3000 { priority := 32 },
      .futexInit 0x100 0x104 0, .start 0] ++ switchPass)
    (List.flatten [[.call 0 (.osSemaphoreAcquire schedulerWaitForever)], List.replicate 2 (.act 0 0),
      switchPass.map .kernel, [.call 0 (.osSemaphoreAcquire schedulerWaitForever)],
      List.replicate 2 (.act 0 1), switchPass.map .kernel,
      [.kernel (.create 0 0x4000 { priority := 31 })], switchPass.map .kernel,
      [.call 0 .osSemaphoreRelease], List.replicate 3 (.act 0 2), switchPass.map .kernel,
      [.call 0 .osSemaphoreRelease], List.replicate 2 (.act 0 3),
      (.suspend 0 0 :: switchPass).map .kernel, List.replicate 3 (.act 0 0)])
    (fun machine =>
      machine.calls.map (fun call => (call.owner, call.place, call.waiting)) =
        [(.task 0x2000, .acquire schedulerWaitForever (.inr .osOK), false),
          (.task 0x3000, .acquire schedulerWaitForever (.inl .wait), true),
          (.task 0x4000, .release (.inr .osOK), false),
          (.task 0x4000, .release (.inr .osOK), false)] ∧
      machine.kernel.memory threeTokens.value = 1 ∧
      machine.kernel.queue (.waiters threeTokens.futex) = [0x3000] ∧
      ¬machine.kernel.Asked threeTokens.futex) (by decide)
  have atRest : AtRest threeTokens machine := by
    refine ⟨fun call member unfinished => ?_, noWake⟩
    have isCall := calls ▸ List.mem_map_of_mem member
    simp only [List.mem_cons, List.not_mem_nil, or_false, Prod.mk.injEq] at isCall
    rcases isCall with ⟨_, done, _⟩ | ⟨owner, _, waiting⟩ | ⟨_, done, _⟩ | ⟨_, done, _⟩
    · rw [done] at unfinished
      cases unfinished
    · refine ⟨waiting, 0x3000, owner, ?_⟩
      rw [queue]
      exact List.mem_singleton_self _
    · rw [done] at unfinished
      cases unfinished
    · rw [done] at unfinished
      cases unfinished
  have token : machine.kernel.memory threeTokens.value > 0 := by
    rw [one]
    decide
  have nobody := never machine reached.reachable atRest token
  rw [queue] at nobody
  cases nobody

end PicoToolkit
