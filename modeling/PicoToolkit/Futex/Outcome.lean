import PicoToolkit.Futex.Waiting
import PicoToolkit.Scheduler.Answer

/-!
How the waits of each task end, and what they return.
-/

namespace PicoToolkit

open Ring Transition

inductive Outcome where
  | idle
  | waiting (futex : Word)
  | differed
  | woken
  | expired
  | resumed
  | suspended
  deriving DecidableEq

def Outcome.depart {cores : Nat} (outcome : Outcome) (action : Action cores) : Outcome :=
  match outcome, action with
  | .waiting _, .resume _ _ => .resumed
  | .waiting _, .switchStep _ => .expired
  | .waiting _, _ => .suspended
  | .suspended, .resume _ _ => .resumed
  | outcome, _ => outcome

section

variable {R : Type → Type → Type} [Store R] {cores : Nat} [NeZero cores]

def outcomeAfter (state : State R cores) (action : Action cores) (next : State R cores)
    (outcomes : Word → Outcome) (task : Word) : Outcome :=
  if ∃ core ∈ action.caller, state.currentTask core = some task then
    match action with
    | .futexWait _ futex expected _ =>
        if state.futexValue futex = expected ∨
            state.futexValue futex = waitValue (state.futex futex) expected then .waiting futex
        else .differed
    | _ => .idle
  else
    match event state action with
    | .create created _ => if task = created then .idle else outcomes task
    | .exit exited => if task = exited then .idle else outcomes task
    | .depart departed =>
        if task = departed then (outcomes task).depart action else outcomes task
    | .wake futex _ =>
        if outcomes task = .waiting futex ∧ task ∉ next.queue (.waiters futex) then .woken
        else outcomes task
    | _ => outcomes task

def SuspendsNoWaiter (state : State R cores) (action : Action cores) : Prop :=
  match action with
  | .suspend core task =>
      cores > 1 ∨ (state.task (taskOrCurrent core task state)).state ≠ .blocked
  | _ => True

instance (state : State R cores) (action : Action cores) :
    Decidable (SuspendsNoWaiter state action) :=
  match action with
  | .suspend core task =>
      inferInstanceAs (Decidable (cores > 1 ∨
        (state.task (taskOrCurrent core task state)).state ≠ .blocked))
  | .create .. | .start .. | .yield .. | .sleep .. | .resume .. | .terminate .. | .setPriority ..
  | .setFlags .. | .clearFlags .. | .futexInit .. | .futexWait .. | .futexWake .. | .lock | .unlock
  | .lockRestore .. | .store .. | .smashStack .. | .tick .. | .interruptWake .. | .switchEnter ..
  | .switchStep .. => inferInstanceAs (Decidable True)

end

def outcomes (cores : Nat) [NeZero cores] :
    System (State Links cores × (Word → Outcome)) (Action cores) :=
  (scheduler cores).record (fun _ => .idle) outcomeAfter

variable {cores : Nat} {state next : Plain cores} {core : Fin cores} {task : Word} {result : Result}

theorem Placed.blocked_iff (placed : Placed state) :
    (state.task task).state = .blocked ↔ ∃ futex, state.view.Waits task futex := by
  refine (placed task).blocked.trans (exists_congr fun futex => ?_)
  exact ((placed task).queued _).symm

structure Ended (state : Plain cores) (task : Word) (result : Result) : Prop where
  notBlocked : (state.task task).state ≠ .blocked
  untimed : ¬(state.whereabouts task).timed
  answer : state.answer task = result

def Outcome.Agrees (state : Plain cores) (task : Word) : Outcome → Prop
  | .idle => True
  | .waiting futex => state.view.Waits task futex ∧ state.answer task = .value 0
  | .differed => Ended state task (.value 0)
  | .woken => Ended state task (.value 0)
  | .expired => Ended state task (.error .etimedout)
  | .resumed => Ended state task (.error .ecanceled)
  | .suspended => False

theorem waitSvc_caller [NeZero cores] (placed : Placed state) {futex expected ticks : Word}
    (runs : state.currentTask core = some task)
    (done : schedulerWaitSvc core futex expected ticks state = some next) :
    if state.futexValue futex = expected ∨
        state.futexValue futex = waitValue (state.futex futex) expected then
      next.view.Waits task futex ∧ next.answer task = .value 0
    else Ended next task (.value 0) := by
  obtain ⟨current, isCurrent, view⟩ := view_waitSvc placed done
  obtain rfl : current = task := Option.some_inj.mp (isCurrent.symm.trans runs)
  have after := placed.wait done
  simp only [schedulerWaitSvc, isCurrent, Option.ite_none_right_eq_some] at done
  obtain ⟨_, done⟩ := done
  obtain ⟨served, handled, rfl⟩ := Option.map_eq_some_iff.mp done
  have seen : (setResult current (.value 0) state).futexValue futex = state.futexValue futex := rfl
  rw [seen] at handled
  have moved : ∀ state : Plain cores,
      (schedulerRequestSwitch core (schedSetCurrent core none state)).answer current =
        state.answer current := fun _ => rfl
  split
  · rename_i blocks
    rw [if_pos blocks] at handled view
    refine ⟨?_, ?_⟩
    · rw [view]
      exact View.waits_wait.mpr (Or.inl ⟨rfl, rfl⟩)
    · rw [moved]
      have written : ∀ (state : Plain cores) (address value : Word),
          (state.setMemory address value).answer current = state.answer current :=
        fun _ _ _ => rfl
      simp only [schedulerBlock] at handled
      split at handled
      · split at handled
        · obtain rfl := Option.some_inj.mp handled
          rw [answer_boostOwner]
          simp [schedulerEnqueueWaiter, written]
        · cases handled
      · obtain rfl := Option.some_inj.mp handled
        simp [schedulerEnqueueWaiter, written]
  · rename_i differs
    rw [if_neg differs] at handled view
    obtain rfl := Option.some_inj.mp handled
    constructor
    · intro blocked
      obtain ⟨queue, waits⟩ := after.blocked_iff.mp blocked
      rw [view] at waits
      have running : (state.task current).state = .running := placed.running runs
      exact placed.notWaiting (by simp [running]) queue waits
    · have untimed := (placed.running_free runs).2.2
      simpa using untimed
    · rw [moved]
      simp

theorem futexWait_of_wait [NeZero cores] {action : Action cores} {futex expected : Word}
    (waits : event state action = .wait task futex expected) :
    ∃ core ticks, action = .futexWait core futex expected ticks ∧
      state.currentTask core = some task ∧ (state.futexValue futex = expected ∨
        state.futexValue futex = waitValue (state.futex futex) expected) := by
  have source := event_from state action
  rw [waits] at source
  exact source

theorem caller_of_wait [NeZero cores] {action : Action cores} {futex expected : Word}
    (waits : event state action = .wait task futex expected) :
    ∃ core ∈ action.caller, state.currentTask core = some task := by
  obtain ⟨core, ticks, rfl, runs, _⟩ := futexWait_of_wait waits
  exact ⟨core, rfl, runs⟩

theorem notBlocked_of_step [NeZero cores] (placed : Placed state) {action : Action cores}
    (away : ∀ core ∈ action.caller, state.currentTask core ≠ some task)
    (notBlocked : (state.task task).state ≠ .blocked) (done : step state action = some next) :
    (next.task task).state ≠ .blocked := by
  intro blocked
  obtain ⟨futex, waits⟩ := (placed.step done).blocked_iff.mp blocked
  rcases View.waits_of_perform (view_step placed done) waits with old | ⟨expected, own⟩
  · exact notBlocked (placed.blocked_iff.mpr ⟨futex, old⟩)
  · obtain ⟨core, calls, runs⟩ := caller_of_wait own
    exact away core calls runs

theorem Ended.keeps [NeZero cores] (placed : Placed state) {action : Action cores}
    (away : ∀ core ∈ action.caller, state.currentTask core ≠ some task)
    (ended : Ended state task result) (kept : Keeps state next task)
    (done : step state action = some next) : Ended next task result := by
  constructor
  · exact notBlocked_of_step placed away ended.notBlocked done
  · exact fun timed => ended.untimed (kept.timed timed).1
  · exact kept.answer.trans ended.answer

/-- What agrees with the outcome of a wait agrees with it after a step that leaves the task alone. -/
theorem Outcome.Agrees.keeps [NeZero cores] (placed : Placed state) {action : Action cores}
    {outcome : Outcome} (away : ∀ core ∈ action.caller, state.currentTask core ≠ some task)
    (agrees : outcome.Agrees state task) (kept : Keeps state next task)
    (done : step state action = some next)
    (stays : ∀ futex, outcome = .waiting futex → next.view.Waits task futex) :
    outcome.Agrees next task := by
  cases outcome with
  | idle => trivial
  | waiting futex => exact ⟨stays futex rfl, kept.answer.trans agrees.2⟩
  | suspended => exact agrees.elim
  | _ => exact Ended.keeps placed away agrees kept done

theorem action_of_depart [NeZero cores] {action : Action cores}
    (departs : event state action = .depart task) :
    (∃ core, action = .resume core task) ∨ (∃ core, action = .switchStep core) ∨
      ∃ core suspended, action = .suspend core suspended ∧ ¬cores > 1 ∧
        taskOrCurrent core suspended state = task := by
  have source := event_from state action
  rw [departs] at source
  rcases source with resumed | suspended | ⟨core, _, rfl, _⟩
  · exact Or.inl resumed
  · exact Or.inr (Or.inr suspended)
  · exact Or.inr (Or.inl ⟨core, rfl⟩)

theorem Outcome.Agrees.depart [NeZero cores] (placed : Placed state) {action : Action cores}
    {outcome : Outcome} (away : ∀ core ∈ action.caller, state.currentTask core ≠ some task)
    (allowed : SuspendsNoWaiter state action) (agrees : outcome.Agrees state task)
    (departs : event state action = .depart task) (done : step state action = some next) :
    (outcome.depart action).Agrees next task := by
  obtain ⟨wasBlocked, wasNot⟩ := departs_of_step placed away departs done
  have passes : ∀ result, Ended state task result → Ended next task result := by
    intro result ended
    exact ended.keeps placed away (wasNot ended.notBlocked ended.untimed) done
  cases outcome with
  | idle => trivial
  | suspended => exact agrees.elim
  | waiting futex =>
      have blocked := placed.blocked_iff.mpr ⟨futex, agrees.1⟩
      obtain ⟨untimed, answer⟩ := wasBlocked blocked
      have released : (next.task task).state ≠ .blocked := by
        intro still
        obtain ⟨queue, waits⟩ := (placed.step done).blocked_iff.mp still
        have performed := view_step placed done
        rw [departs] at performed
        rw [← Option.some_inj.mp performed, View.waits_remove] at waits
        exact waits.2 rfl
      rcases action_of_depart departs with ⟨core, rfl⟩ | ⟨core, rfl⟩ |
          ⟨core, suspended, rfl, single, rfl⟩
      · exact ⟨released, untimed, answer⟩
      · exact ⟨released, untimed, answer⟩
      · rcases allowed with several | notBlocked
        · exact (single several).elim
        · exact (notBlocked blocked).elim
  | _ => exact passes _ agrees

/-- A step that suspends no waiter keeps every task in agreement with the outcome of its wait. -/
theorem Outcome.Agrees.step [NeZero cores] (placed : Placed state) (ordered : state.view.Ordered)
    {action : Action cores} {outcomes : Word → Outcome} (allowed : SuspendsNoWaiter state action)
    (agrees : (outcomes task).Agrees state task) (done : PicoToolkit.step state action = some next) :
    (outcomeAfter state action next outcomes task).Agrees next task := by
  unfold outcomeAfter
  by_cases calls : ∃ core ∈ action.caller, state.currentTask core = some task
  · rw [if_pos calls]
    obtain ⟨core, caller, runs⟩ := calls
    split
    · rename_i waitCore futex expected ticks
      obtain rfl : waitCore = core := by simpa [Action.caller] using caller
      simp only [PicoToolkit.step, Option.ite_none_right_eq_some] at done
      have left := waitSvc_caller placed runs done.2
      split at left
      · rename_i blocks
        rw [if_pos blocks]
        exact left
      · rename_i differs
        rw [if_neg differs]
        exact left
    · trivial
  · rw [if_neg calls]
    have away : ∀ core ∈ action.caller, state.currentTask core ≠ some task :=
      fun core caller runs => calls ⟨core, caller, runs⟩
    have single : ∀ futex, state.view.Waits task futex →
        ∀ other, state.view.Waits task other → other = futex :=
      fun futex waits other otherWaits => ordered.single task other futex otherWaits waits
    have performed := view_step placed done
    have spared : (event state action).Spares task →
        (∀ futex all, event state action = .wake futex all → outcomes task ≠ .waiting futex ∨
          next.view.Waits task futex) →
        (outcomes task).Agrees next task := by
      intro spares unwoken
      refine agrees.keeps placed away (keeps_of_step placed away spares done) done ?_
      intro futex waiting
      rw [waiting] at agrees
      by_contra gone
      rcases View.perform_of_not_waits (single futex agrees.1) performed agrees.1 gone with
        departs | exits | ⟨all, wakes⟩
      · exact spares.1 departs
      · exact spares.2.1 exits
      · rcases unwoken futex all wakes with other | stays
        · exact other waiting
        · exact gone stays
    split
    · rename_i created priority isCreate
      split
      · trivial
      · rename_i other
        rw [isCreate] at spared
        exact spared (Event.spares_create other priority) fun _ _ same => by cases same
    · rename_i exited isExit
      split
      · trivial
      · rename_i other
        rw [isExit] at spared
        exact spared (Event.spares_exit other) fun _ _ same => by cases same
    · rename_i departed isDepart
      split
      · rename_i same
        subst departed
        exact agrees.depart placed away allowed isDepart done
      · rename_i other
        rw [isDepart] at spared
        exact spared (Event.spares_depart other) fun _ _ same => by cases same
    · rename_i futex all isWake
      rw [isWake] at spared
      split
      · rename_i woken
        rw [woken.1] at agrees
        have kept : Keeps state next task :=
          keeps_of_step placed away (isWake ▸ Event.spares_wake futex all task) done
        have released : (next.task task).state ≠ .blocked := by
          intro blocked
          obtain ⟨queue, waits⟩ := (placed.step done).blocked_iff.mp blocked
          rcases View.waits_of_perform performed waits with old | ⟨expected, own⟩
          · rw [single futex agrees.1 queue old] at waits
            exact woken.2 waits
          · rw [isWake] at own
            cases own
        refine ⟨released, fun timed => released ?_, kept.answer.trans agrees.2⟩
        exact (kept.timed timed).2.trans (placed.blocked_iff.mpr ⟨futex, agrees.1⟩)
      · rename_i unwoken
        refine spared (Event.spares_wake futex all task) ?_
        intro other _ same
        injection same with same
        subst other
        by_contra both
        exact unwoken ⟨not_not.mp fun different => both (Or.inl different),
          fun waits => both (Or.inr waits)⟩
    · rename_i notCreate notExit notDepart notWake
      refine spared ⟨fun same => notDepart _ same, fun same => notExit _ same,
        fun _ same => notCreate _ _ same⟩ ?_
      exact fun futex all same => (notWake _ _ same).elim

theorem outcomeAfter_plain [NeZero cores] (state : State Links cores) (action : Action cores)
    (next : State Links cores) (outcomes : Word → Outcome) (task : Word) :
    outcomeAfter state.plain action next.plain outcomes task =
      outcomeAfter state action next outcomes task := by
  unfold outcomeAfter
  rw [event_plain]
  rfl

theorem agrees_of_outcomes [NeZero cores] {recorded : State Links cores × (Word → Outcome)}
    (reached : (outcomes cores).Guarded
      (fun recorded action => SuspendsNoWaiter recorded.1 action) recorded) :
    (scheduler cores).Reachable recorded.1 ∧
      ∀ task, (recorded.2 task).Agrees recorded.1.plain task := by
  refine reached.invariant (motive := fun recorded => (scheduler cores).Reachable recorded.1 ∧
    ∀ task, (recorded.2 task).Agrees recorded.1.plain task) ?_ ?_
  · rintro ⟨state, history⟩ ⟨begins, rfl⟩
    exact ⟨.start begins, fun _ => trivial⟩
  · rintro ⟨state, history⟩ action ⟨next, later⟩ ⟨before, agrees⟩ allowed moved
    obtain ⟨after, first, same⟩ := Option.map_eq_some_iff.mp moved
    obtain ⟨rfl, rfl⟩ := Prod.mk.inj same
    refine ⟨before.step first, fun task => ?_⟩
    obtain ⟨follows, abstractly⟩ := (scheduler_simulation cores).reachable before
    have follow := ((scheduler_simulation cores).step _ _ _ follows abstractly first).2
    have ordered : state.plain.view.Ordered := ordered_of_reachable before
    change (outcomeAfter state action after history task).Agrees after.plain task
    rw [← outcomeAfter_plain]
    exact Outcome.Agrees.step (placed_of_reachable abstractly) ordered allowed (agrees task) follow

structure Reports (state : State Links cores) (outcome : Outcome) (task : Word) : Prop where
  succeeded : state.answer task = .value 0 → outcome = .differed ∨ outcome = .woken
  timedOut : state.answer task = .error .etimedout → outcome = .expired
  canceled : outcome = .resumed → state.answer task = .error .ecanceled

/-- If no waiting task is suspended by another one, every wait that returns reports why it ended. -/
theorem reports_of_outcomes [NeZero cores] {recorded : State Links cores × (Word → Outcome)}
    (reached : (outcomes cores).Guarded
      (fun recorded action => SuspendsNoWaiter recorded.1 action) recorded)
    {core : Fin cores} {task : Word} (runs : recorded.1.currentTask core = some task)
    (waited : recorded.2 task ≠ .idle) : Reports recorded.1 (recorded.2 task) task := by
  obtain ⟨plainly, agrees⟩ := agrees_of_outcomes reached
  obtain ⟨_, abstractly⟩ := (scheduler_simulation cores).reachable plainly
  have placed := placed_of_reachable abstractly
  have running : (recorded.1.task task).state = .running :=
    (placed task).running.mpr ⟨core, runs⟩
  have agreed := agrees task
  cases outcome : recorded.2 task with
  | idle => exact (waited outcome).elim
  | waiting futex =>
      rw [outcome] at agreed
      exact (placed.notWaiting (by simp [State.plain, running]) futex agreed.1).elim
  | suspended =>
      rw [outcome] at agreed
      exact agreed.elim
  | _ =>
      rw [outcome] at agreed
      have answer : recorded.1.answer task = _ := agreed.answer
      constructor
      · simp [answer]
      · simp [answer]
      · simp [answer]

def blockedWaiter : List (Action 1) :=
  [Action.create 0 0x1000 { flags := schedulerPrimordialTask, priority := 32 },
    .create 0 0x2000 { priority := 31 }, .start 0, .futexInit 0x100 0x104 0] ++ switchPass ++
    [Action.futexWait 0 0x100 0 schedulerWaitForever] ++ switchPass

theorem outcomes_boot : (outcomes 1).initial (bootState 1, fun _ => .idle) :=
  ⟨initial_bootState 1, rfl⟩

theorem reports_of_outcomes_resumed :
    ∃ recorded, (outcomes 1).Reachable recorded ∧ recorded.1.currentTask 0 = some 0x2000 ∧
      recorded.2 0x2000 = .resumed ∧ Reports recorded.1 (recorded.2 0x2000) 0x2000 := by
  obtain ⟨recorded, reached, runs, resumed⟩ := System.exists_of_run
    (fun recorded action => SuspendsNoWaiter recorded.1 action) outcomes_boot
    (List.flatten [blockedWaiter, [.resume 0 0x2000], switchPass])
    (fun recorded : State Links 1 × (Word → Outcome) =>
      recorded.1.currentTask 0 = some 0x2000 ∧ recorded.2 0x2000 = .resumed) (by decide)
  exact ⟨recorded, reached.reachable, runs, resumed,
    reports_of_outcomes reached runs (resumed.trans_ne (by decide))⟩

theorem suspended_waiter_misreports :
    ∃ recorded, (outcomes 1).Reachable recorded ∧ recorded.1.currentTask 0 = some 0x2000 ∧
      recorded.2 0x2000 ≠ .idle ∧ ¬Reports recorded.1 (recorded.2 0x2000) 0x2000 := by
  obtain ⟨recorded, reached, runs, resumed, answer⟩ := System.exists_of_run
    (fun _ _ => True) outcomes_boot
    (List.flatten [blockedWaiter, [.suspend 0 0x2000], switchPass, [.resume 0 0x2000], switchPass])
    (fun recorded : State Links 1 × (Word → Outcome) =>
      recorded.1.currentTask 0 = some 0x2000 ∧ recorded.2 0x2000 = .resumed ∧
        recorded.1.answer 0x2000 = .value 0) (by decide)
  refine ⟨recorded, reached, runs, resumed.trans_ne (by decide), fun reports => ?_⟩
  have canceled := reports.canceled resumed
  rw [answer] at canceled
  cases canceled

end PicoToolkit
