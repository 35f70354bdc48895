import PicoToolkit.Cmsis.MutexCalls

/-!
What a release of a mutex leaves behind: whether the word still names the task that has released it.
-/

namespace PicoToolkit

open Ring Transition Interleaving Tag

section

variable {cores : Nat}

/-- A release of a task, at a place after its owner test, returns success. -/
def EndsRelease (machine : Machine cores Unit MutexPlace) (label : Label cores MutexEntry)
    (next : Machine cores Unit MutexPlace) (task : Word) (place : UnlockPlace) : Prop :=
  ∃ core index call after, label = .act core index ∧ machine.calls[index]? = some call ∧
    call.owner = .task task ∧ call.place.phase = .giving place ∧
    next.calls[index]? = some after ∧ after.place.phase = .given

/-- The word names the first waiter, with the contention bit if others remain, or nobody if none waits. -/
def MutexFreed (mutex : RtosMutex) (task : Word) (machine next : Machine cores Unit MutexPlace) : Prop :=
  let after := next.kernel.mutexView mutex
  untag after.value ≠ task ∧
    match (machine.kernel.mutexView mutex).waiters with
    | [] => after.value = 0
    | first :: _ => first ∉ after.waiters ∧
        after.value = if after.waiters = [] then first else tag first

variable [NeZero cores] {contexts : Word → Word} {mutex : RtosMutex} {inherits : Bool}
  {machine next : Machine cores Unit MutexPlace} {label : Label cores MutexEntry} {task : Word}
  {place : UnlockPlace}

/-- An outermost release is one that does not end at the count.  It frees the mutex, unless it comes to
wake a waiter when none waits any more. -/
theorem mutexFreed_iff (own : OwnContexts contexts)
    (reached : (mutexSystem cores contexts mutex inherits).Reachable machine)
    (moved : (mutexSystem cores contexts mutex inherits).step machine label = some next)
    (ends : EndsRelease machine label next task place) (outermost : place ≠ .count) :
    MutexFreed mutex task machine next ↔
      ¬(place = .wake ∧ (machine.kernel.mutexView mutex).waiters = []) := by
  have sound := mutexSound_of_reachable own reached
  obtain ⟨uses, moved⟩ := Option.ite_none_right_eq_some.mp moved
  obtain ⟨core, index, call, after, rfl, found, owner, phase, foundAfter, phaseAfter⟩ := ends
  obtain ⟨mover, before, moving, acts⟩ := mutexActs_of_step own sound moved
  obtain rfl := Option.some_inj.mp (found.symm.trans acts.acting)
  obtain rfl := Option.some_inj.mp (foundAfter.symm.trans acts.found)
  obtain rfl : task = mover := Owner.task.inj (owner.symm.trans acts.caller)
  obtain ⟨nonzero, aligned, _⟩ := sound.callers task call acts.last
  have named := sound.named task call acts.last
  have moves := acts.moves
  rw [phase] at named moves
  rw [phaseAfter] at moves
  generalize isBefore : machine.kernel.mutexView mutex = view at moves named
  generalize isAfter : next.kernel.mutexView mutex = final at moves
  simp only [MutexFreed, isBefore, isAfter]
  cases moves with
  | inner => exact (outermost rfl).elim
  | frees isOwn =>
      refine iff_of_true ?_ fun both => by cases both.1
      have nobody : view.waiters = [] := by
        refine Classical.byContradiction fun some => ?_
        have tagged := sound.contended (isBefore.symm ▸ some)
        rw [isBefore, isOwn] at tagged
        exact tag_ne_of_untagged (by decide) aligned tagged.symm
      simp only [nobody]
      refine ⟨fun same => nonzero ?_, trivial⟩
      rw [← same]
      exact untagged_zero
  | wakes count hands =>
      cases waiters : view.waiters with
      | nil =>
          rw [waiters] at hands
          refine iff_of_false ?_ fun not => not ⟨rfl, rfl⟩
          rintro ⟨other, _⟩
          refine other ?_
          rw [hands.1, untag_untag]
          exact (named rfl).symm
      | cons first rest =>
          rw [waiters] at hands
          refine iff_of_true ⟨?_, hands.1, hands.2.2⟩ fun both => by cases both.2
          have waits : machine.kernel.view.Waits first mutex.lock.futex := by
            change first ∈ (machine.kernel.mutexView mutex).waiters
            rw [isBefore, waiters]
            exact List.mem_cons_self
          have ordered := ordered_of_reachable sound.reached
          have alignedFirst := (ordered.aligned first (ordered.listed first _ waits)).2
          rw [hands.2.2]
          split
          · exact alignedFirst.symm ▸ hands.2.1
          · rw [untag_tag]
            exact alignedFirst.symm ▸ hands.2.1

end

section Runs

/-- The steps before a run set up no other futex for the words of the mutex. -/
def Action.spareMutex (mutex : RtosMutex) : Action 1 → Bool
  | .futexInit futex value _ => decide (futex = mutex.lock.futex) || !mutex.cells value
  | _ => true

theorem others_of_setup {mutex : RtosMutex} {state : State Links 1}
    (nonzero : mutex.cells 0 = false)
    (reached : (scheduler 1).Guarded (fun _ action => action.spareMutex mutex = true) state) :
    ∀ futex, futex ≠ mutex.lock.futex → mutex.cells (state.futex futex).value = false := by
  suffices both : (scheduler 1).Reachable state ∧ ∀ futex, futex ≠ mutex.lock.futex →
    mutex.cells (state.futex futex).value = false from both.2
  refine reached.invariant (motive := fun state => (scheduler 1).Reachable state ∧
    ∀ futex, futex ≠ mutex.lock.futex → mutex.cells (state.futex futex).value = false) ?_ ?_
  · intro state begins
    refine ⟨.start begins, ?_⟩
    obtain ⟨memory, sliceDuration, rfl⟩ := begins
    exact fun _ _ => nonzero
  · rintro state action next ⟨before, others⟩ spares moved
    refine ⟨before.step moved, fun futex other => ?_⟩
    by_cases isInit : ∃ value flags, action = .futexInit futex value flags
    · obtain ⟨value, flags, rfl⟩ := isInit
      have performed := (@view_transition _ _ state next (.futexInit futex value flags) before moved).2
      have becomes : next.futex = _ := congrArg View.futex (Option.some_inj.mp performed).symm
      rw [becomes]
      simpa [View.initFutex, Action.spareMutex, other] using spares
    · have same : next.futex futex = state.futex futex := by
        refine View.futex_of_perform (view_transition before moved).2 fun value flags happens => ?_
        have source := event_from state action
        rw [happens] at source
        exact isInit ⟨value, flags, source⟩
      exact same ▸ others futex other

instance : DecidableEq Futex := fun left right =>
  decidable_of_iff (left.value = right.value ∧ left.flags = right.flags ∧ left.marker = right.marker)
    (by cases left; cases right; simp)

/-- A run on one core, found by evaluation: some steps of the scheduler that set up the mutex, then calls
of its functions. -/
theorem exists_mutexRun {Whole : Type} (system : System Whole (Label 1 MutexEntry))
    (origin : State Links 1 → Whole) (mutex : RtosMutex) (inherits : Bool)
    (starts : ∀ state, MutexBegins mutex inherits ⟨state, (), [], fun _ => none⟩ →
      system.initial (origin state))
    (guard : Whole → Label 1 MutexEntry → Prop) [∀ machine label, Decidable (guard machine label)]
    (setup : List (Action 1)) (labels : List (Label 1 MutexEntry)) (check : Whole → Prop)
    [DecidablePred check] (words : mutex.cells 0 = false ∧ mutex.lock.value ≠ mutex.lock.count)
    (found : ((scheduler 1).run (fun _ action => action.spareMutex mutex = true) (bootState 1)
        setup).any fun state =>
      decide ((state.mutexView mutex).value = 0 ∧ (state.mutexView mutex).count = 0 ∧
        (state.mutexView mutex).waiters = [] ∧ state.futex mutex.lock.futex = mutex.entry inherits) &&
        (system.run guard (origin state) labels).any fun final => decide (check final)) :
    ∃ whole, system.Guarded guard whole ∧ check whole := by
  obtain ⟨state, prepared, found⟩ := (Option.any_eq_true _ _).mp found
  obtain ⟨initially, found⟩ := (Bool.and_eq_true _ _).mp found
  obtain ⟨free, none, nobody, entry⟩ := of_decide_eq_true initially
  have reached := System.run_guarded (.start (initial_bootState 1)) prepared
  exact System.exists_of_run guard (starts state ⟨reached.reachable, words.2,
    MutexView.ext free none nobody, entry, others_of_setup words.1 reached, rfl, rfl⟩) labels check found

theorem ownContexts_id : OwnContexts id := ⟨Function.injective_id, fun _ => id⟩

def someMutex : RtosMutex where
  lock := { value := 0x104, count := 0x10c, futex := 0x100, recursive := false }

/-- The task at 0x2000 runs, the one at 0x1000 is ready. -/
def mutexSetup : List (Action 1) :=
  [Action.create 0 0x1000 { flags := schedulerPrimordialTask, priority := 32 },
    .create 0 0x2000 { priority := 32 }, .futexInit 0x100 0x104 7, .start 0] ++ switchPass

/-- The task at 0x2000 locks the mutex, and the one at 0x1000 waits for it. -/
def contendedRun : List (Label 1 MutexEntry) :=
  List.flatten [[.call 0 ⟨0x2000, .mtxLock⟩], List.replicate 2 (.act 0 0),
    (.yield 0 :: switchPass).map .kernel, [.call 0 ⟨0x1000, .mtxLock⟩], List.replicate 3 (.act 0 1),
    switchPass.map .kernel]

def unlockRun : List (Label 1 MutexEntry) :=
  [.call 0 ⟨0x2000, .mtxUnlock⟩, .act 0 2, .act 0 2]

/-- The release of the task at 0x2000 is about to wake a waiter. -/
def AboutToWake (machine : Machine 1 Unit MutexPlace) : Prop :=
  machine.calls[2]?.map (fun call => (call.owner, call.place)) =
    some (.task 0x2000, .unlock 0x2000 (.inl .wake)) ∧
  ((mutexSystem 1 id someMutex true).step machine (.act 0 2)).any fun next =>
    decide (next.calls[2]?.map Call.place = some (.unlock 0x2000 (.inr (.thrdSuccess, none))))

instance (machine : Machine 1 Unit MutexPlace) : Decidable (AboutToWake machine) :=
  inferInstanceAs (Decidable (_ ∧ _))

theorem endsRelease_of_aboutToWake {machine : Machine 1 Unit MutexPlace} (wakes : AboutToWake machine) :
    ∃ next, (mutexSystem 1 id someMutex true).step machine (.act 0 2) = some next ∧
      EndsRelease machine (.act 0 2) next 0x2000 .wake := by
  obtain ⟨isCall, ends⟩ := wakes
  obtain ⟨next, moved, isAfter⟩ := (Option.any_eq_true _ _).mp ends
  obtain ⟨call, found, same⟩ := Option.map_eq_some_iff.mp isCall
  obtain ⟨after, foundAfter, place⟩ := Option.map_eq_some_iff.mp (of_decide_eq_true isAfter)
  obtain ⟨owner, before⟩ := Prod.mk.inj same
  refine ⟨next, moved, 0, 2, call, after, rfl, found, owner, ?_, foundAfter, ?_⟩
  · rw [before]
    rfl
  · rw [place]
    rfl

theorem mutexFreed_iff_waiter :
    ∃ machine next : Machine 1 Unit MutexPlace,
      (mutexSystem 1 id someMutex true).Reachable machine ∧
      EndsRelease machine (.act 0 2) next 0x2000 .wake ∧
      (machine.kernel.mutexView someMutex).waiters = [0x1000] ∧
      MutexFreed someMutex 0x2000 machine next := by
  obtain ⟨machine, reached, wakes, waiters⟩ := exists_mutexRun (mutexSystem 1 id someMutex true)
    (⟨·, (), [], fun _ => none⟩) someMutex true (fun _ => id) (fun _ _ => True) mutexSetup
    (contendedRun ++ unlockRun)
    (fun machine => AboutToWake machine ∧ (machine.kernel.mutexView someMutex).waiters = [0x1000])
    (by decide) (by decide)
  obtain ⟨next, moved, ends⟩ := endsRelease_of_aboutToWake wakes
  refine ⟨machine, next, reached, ends, waiters, ?_⟩
  refine (mutexFreed_iff ownContexts_id reached moved ends (by decide)).mpr ?_
  rintro ⟨_, none⟩
  rw [waiters] at none
  cases none

/-- The waiter is resumed before the release, which leaves the mutex to the task that released it. -/
theorem not_mutexFreed :
    ¬∀ (machine next : Machine 1 Unit MutexPlace) (label : Label 1 MutexEntry) (task : Word)
      (place : UnlockPlace), (mutexSystem 1 id someMutex true).Reachable machine →
      (mutexSystem 1 id someMutex true).step machine label = some next →
      EndsRelease machine label next task place → place ≠ .count →
      MutexFreed someMutex task machine next := by
  intro frees
  obtain ⟨machine, reached, wakes, nobody⟩ := exists_mutexRun (mutexSystem 1 id someMutex true)
    (⟨·, (), [], fun _ => none⟩) someMutex true (fun _ => id) (fun _ _ => True) mutexSetup
    (contendedRun ++ .kernel (.resume 0 0x1000) :: unlockRun)
    (fun machine => AboutToWake machine ∧ (machine.kernel.mutexView someMutex).waiters = [] ∧
      ((mutexSystem 1 id someMutex true).step machine (.act 0 2)).any fun next =>
        decide ((next.kernel.mutexView someMutex).value = 0x2000))
    (by decide) (by decide)
  obtain ⟨next, moved, ends⟩ := endsRelease_of_aboutToWake wakes
  obtain ⟨other, isNext, keeps⟩ := (Option.any_eq_true _ _).mp nobody.2
  obtain rfl := Option.some_inj.mp (moved.symm.trans isNext)
  have freed := (frees machine next _ _ _ reached moved ends (by decide)).1
  rw [of_decide_eq_true keeps] at freed
  exact freed (by decide)

end Runs

end PicoToolkit
