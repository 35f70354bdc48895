import PicoToolkit.Inheritance.Demotion

/-!
Who waits for which futex, and what its word holds, whatever the priorities are.
-/

namespace PicoToolkit

open Ring Tag

namespace View

variable {view next : View} {task other futex queue : Word} {all : Bool}

def Several (view : View) (futex : Word) (all : Bool) : Prop :=
  all = true ∧ ¬flagSet (view.futex futex).flags schedulerFutexOwnerTracking

def wokenValue (view : View) (futex : Word) (woken : List Word) (left : Bool) : Word :=
  let flags := (view.futex futex).flags
  let value :=
    match woken with
    | [] => view.value futex
    | task :: _ =>
        if flagSet flags schedulerFutexOwnerTracking then task else view.value futex
  if flagSet flags schedulerFutexContentionTracking then if left then tag value else untag value
  else value

structure Wakes (view : View) (futex : Word) (all : Bool) (woken : List Word) (next : View) :
    Prop where
  tasks : next.tasks = view.tasks
  entries : next.futex = view.futex
  waited : ∀ task ∈ woken, view.Waits task futex
  waits : ∀ task queue, next.Waits task queue ↔ view.Waits task queue ∧ task ∉ woken
  several : view.Several futex all → ∀ task, view.Waits task futex → task ∈ woken
  single : ¬view.Several futex all → woken.length ≤ 1
  found : woken = [] → ∀ task, ¬view.Waits task futex
  memory : next.memory = Function.update view.memory (view.futex futex).value
    (view.wokenValue futex woken !(next.waiters futex).isEmpty)

theorem memory_handOver :
    (((view.remove task).trackOwner futex task).adopt futex task).memory =
      if flagSet (view.futex futex).flags schedulerFutexOwnerTracking then
        Function.update view.memory (view.futex futex).value task
      else view.memory := by
  rw [adopt]
  split
  · rfl
  · rfl

theorem waiters_handOver :
    (((view.remove task).trackOwner futex task).adopt futex task).waiters queue =
      (view.waiters queue).filter (· ≠ task) := by
  rw [adopt]
  split
  · have absent : task ∉ (view.waiters queue).filter (· ≠ task) := by simp
    exact if_neg absent
  · rfl

theorem wakeWaiters_several (several : view.Several futex all) {fuel : Nat}
    (enough : (view.waiters futex).length ≤ fuel) :
    (wakeWaiters futex all fuel view).memory = view.memory ∧
      ∀ task queue, (wakeWaiters futex all fuel view).Waits task queue ↔
        view.Waits task queue ∧ ¬view.Waits task futex := by
  induction fuel generalizing view with
  | zero =>
      have empty : view.waiters futex = [] := List.length_eq_zero_iff.mp (by omega)
      refine ⟨rfl, fun task queue => ?_⟩
      simp [wakeWaiters, Waits, empty]
  | succ fuel ih =>
      rw [wakeWaiters]
      split
      · rename_i empty
        refine ⟨rfl, fun task queue => ?_⟩
        simp [Waits, empty]
      · rename_i first rest found
        have flags : (((view.remove first).trackOwner futex first).adopt futex first).Several futex
            all := by
          rw [Several, handed_futex]
          exact several
        have length : ((((view.remove first).trackOwner futex first).adopt futex
            first).waiters futex).length ≤ fuel := by
          rw [waiters_handOver, found, List.filter_cons_of_neg (by simp)]
          have bound := List.length_filter_le (· ≠ first) rest
          rw [found, List.length_cons] at enough
          omega
        have more : ¬(!all || flagSet ((((view.remove first).trackOwner futex first).adopt futex
            first).futex futex).flags schedulerFutexOwnerTracking) = true := by
          simpa [Several] using flags
        obtain ⟨memory, waits⟩ := ih flags length
        simp only [if_neg more]
        refine ⟨?_, fun task queue => ?_⟩
        · rw [memory, memory_handOver, if_neg several.2]
        · rw [waits, waits_handOver, waits_handOver]
          have isFirst : view.Waits first futex := by simp [Waits, found]
          constructor
          · rintro ⟨⟨old, different⟩, absent⟩
            exact ⟨old, fun waits => absent ⟨waits, different⟩⟩
          · rintro ⟨old, absent⟩
            exact ⟨⟨old, fun same => absent (same ▸ isFirst)⟩, fun both => absent both.1⟩

structure Popped (view : View) (futex : Word) (woken : List Word) (next : View) : Prop where
  waits : ∀ task queue, next.Waits task queue ↔ view.Waits task queue ∧ task ∉ woken
  memory : next.memory =
    match woken with
    | [] => view.memory
    | task :: _ =>
        if flagSet (view.futex futex).flags schedulerFutexOwnerTracking then
          Function.update view.memory (view.futex futex).value task
        else view.memory

theorem wakeWaiters_first
    (single : (!all || flagSet (view.futex futex).flags schedulerFutexOwnerTracking) = true) :
    wakeWaiters futex all (view.waiters futex).length view =
      match view.waiters futex with
      | [] => view
      | first :: _ => ((view.remove first).trackOwner futex first).adopt futex first := by
  cases waiters : view.waiters futex with
  | nil => rfl
  | cons first rest =>
      rw [List.length_cons, wakeWaiters, waiters]
      simp only
      rw [handed_futex, if_pos single]

theorem wakeWaiters_popped :
    ∃ woken, view.Popped futex woken (wakeWaiters futex all (view.waiters futex).length view) ∧
      (∀ task ∈ woken, view.Waits task futex) ∧
      (view.Several futex all → ∀ task, view.Waits task futex → task ∈ woken) ∧
      (¬view.Several futex all → woken.length ≤ 1) ∧
      (woken = [] → ∀ task, ¬view.Waits task futex) := by
  by_cases several : view.Several futex all
  · obtain ⟨memory, waits⟩ := wakeWaiters_several several (Nat.le_refl _)
    refine ⟨view.waiters futex, ⟨waits, ?_⟩, fun _ => id, fun _ _ => id,
      fun single => (single several).elim, fun empty task waits => ?_⟩
    · rw [memory]
      split
      · rfl
      · rw [if_neg several.2]
    · rw [Waits, empty] at waits
      cases waits
  · have last : (!all || flagSet (view.futex futex).flags schedulerFutexOwnerTracking) = true := by
      simpa [Several, imp_iff_not_or] using several
    have popped := wakeWaiters_first last
    cases queue : view.waiters futex with
    | nil =>
        refine ⟨[], ⟨fun task queue => ?_, rfl⟩, ?_, fun _ _ waits => ?_, ?_, fun _ _ waits => ?_⟩
        · simp [wakeWaiters]
        · simp
        · simp [Waits, queue] at waits
        · simp
        · simp [Waits, queue] at waits
    | cons first rest =>
        rw [queue] at popped
        rw [popped]
        refine ⟨[first], ⟨fun task queue => ?_, memory_handOver⟩, ?_, ?_, ?_, ?_⟩
        · rw [waits_handOver, List.mem_singleton]
        · simp [Waits, queue]
        · exact fun both => (several both).elim
        · simp
        · simp

theorem exists_wakes (done : view.wake futex all = some next) :
    ∃ woken, view.Wakes futex all woken next := by
  obtain ⟨restored, first, rfl⟩ := Option.map_eq_some_iff.mp done
  have parts := restore_restored first
  obtain ⟨woken, popped, waited, several, single, found⟩ :=
    @wakeWaiters_popped restored futex all
  obtain ⟨_, futexes, tasks⟩ := @wakeWaiters_fields restored futex all (restored.waiters futex).length
  have same : restored.Several futex all ↔ view.Several futex all := by
    simp only [Several, parts.futex]
  refine ⟨woken, ⟨tasks.trans parts.tasks, futexes.trans parts.futex, ?_, ?_, ?_, ?_, ?_, ?_⟩⟩
  · exact fun task member => (parts.waits _ _).mp (waited task member)
  · exact fun task queue => (popped.waits task queue).trans (and_congr_left fun _ => parts.waits _ _)
  · exact fun all task waits => several (same.mpr all) task ((parts.waits _ _).mpr waits)
  · exact fun one => single fun all => one (same.mp all)
  · exact fun empty task waits => found empty task ((parts.waits _ _).mpr waits)
  · have entry : (wakeWaiters futex all (restored.waiters futex).length restored).futex =
        view.futex := futexes.trans parts.futex
    have memory := popped.memory
    simp only [parts.futex, parts.memory] at memory
    simp only [trackContention, setValue, value, entry, memory, wokenValue]
    cases woken with
    | nil =>
        by_cases contention : flagSet (view.futex futex).flags schedulerFutexContentionTracking
        · cases left : (wakeWaiters futex all (restored.waiters futex).length
            restored).waiters futex with
          | nil => simp [contention]
          | cons next rest => simp [contention]
        · simp [contention]
    | cons woken others =>
        by_cases contention : flagSet (view.futex futex).flags schedulerFutexContentionTracking
        · by_cases owner : flagSet (view.futex futex).flags schedulerFutexOwnerTracking
          · cases left : (wakeWaiters futex all (restored.waiters futex).length
              restored).waiters futex with
            | nil => simp [contention, owner]
            | cons next rest => simp [contention, owner]
          · cases left : (wakeWaiters futex all (restored.waiters futex).length
              restored).waiters futex with
            | nil => simp [contention, owner]
            | cons next rest => simp [contention, owner]
        · by_cases owner : flagSet (view.futex futex).flags schedulerFutexOwnerTracking
          · simp [contention, owner]
          · simp [contention, owner]

@[simp]
theorem waits_setValue {value : Word} :
    (view.setValue futex value).Waits task queue ↔ view.Waits task queue := Iff.rfl

@[simp]
theorem waits_boost {owner : Word} :
    (view.boost futex owner).Waits task queue ↔ view.Waits task queue := by
  have linked : (view.linkOwned futex owner).Waits task queue ↔ view.Waits task queue := Iff.rfl
  simp only [boost]
  split
  · rw [waits_reprioritize, linked]
  · exact linked

@[simp]
theorem waits_wait {value : Word} :
    (view.wait task futex value).Waits other queue ↔
      (queue = futex ∧ other = task) ∨ view.Waits other queue := by
  rw [wait]
  split
  · rw [waits_boost, waits_enqueue, waits_setValue]
  · rw [waits_enqueue, waits_setValue]

theorem memory_wait {value : Word} :
    (view.wait task futex value).memory =
      Function.update view.memory (view.futex futex).value value := by
  have boosted : ∀ (view : View) (owner : Word), (view.boost futex owner).memory = view.memory := by
    intro view owner
    simp only [boost]
    split
    · rfl
    · rfl
  simp only [wait]
  split
  · exact boosted _ _
  · rfl

theorem futex_wait {value : Word} : (view.wait task futex value).futex = view.futex := by
  have boosted : ∀ (view : View) (owner : Word), (view.boost futex owner).futex = view.futex := by
    intro view owner
    simp only [boost]
    split
    · rfl
    · rfl
  simp only [wait]
  split
  · exact boosted _ _
  · rfl

theorem waits_of_perform {event : Event} (done : view.perform event = some next)
    (waits : next.Waits task queue) :
    view.Waits task queue ∨ ∃ expected, event = .wait task queue expected := by
  cases event with
  | wait waiter futex expected =>
      obtain rfl := Option.some_inj.mp done
      rcases waits_wait.mp waits with ⟨rfl, rfl⟩ | old
      · exact Or.inr ⟨expected, rfl⟩
      · exact Or.inl old
  | wake futex all =>
      obtain ⟨woken, wakes⟩ := exists_wakes done
      exact Or.inl ((wakes.waits task queue).mp waits).1
  | depart departed =>
      obtain rfl := Option.some_inj.mp done
      exact Or.inl (waits_remove.mp waits).1
  | exit exited =>
      obtain rfl := Option.some_inj.mp done
      exact Or.inl (waits_remove.mp waits).1
  | setPriority changed priority =>
      obtain rfl := Option.some_inj.mp done
      exact Or.inl (waits_reprioritize.mp waits)
  | _ =>
      obtain rfl := Option.some_inj.mp done
      exact Or.inl waits

/-- A task leaves its queue when its wait ends early, when it ends, or by a wake of the futex. -/
theorem perform_of_not_waits {event : Event} (single : ∀ other, view.Waits task other → other = queue)
    (done : view.perform event = some next) (waited : view.Waits task queue)
    (gone : ¬next.Waits task queue) :
    event = .depart task ∨ event = .exit task ∨ ∃ all, event = .wake queue all := by
  cases event with
  | wait waiter futex expected =>
      obtain rfl := Option.some_inj.mp done
      exact (gone (waits_wait.mpr (Or.inr waited))).elim
  | wake futex all =>
      obtain ⟨woken, wakes⟩ := exists_wakes done
      by_cases chosen : task ∈ woken
      · exact Or.inr (Or.inr ⟨all, single futex (wakes.waited task chosen) ▸ rfl⟩)
      · exact (gone ((wakes.waits task queue).mpr ⟨waited, chosen⟩)).elim
  | depart departed =>
      obtain rfl := Option.some_inj.mp done
      by_cases same : task = departed
      · exact Or.inl (same ▸ rfl)
      · exact (gone (waits_remove.mpr ⟨waited, same⟩)).elim
  | exit exited =>
      obtain rfl := Option.some_inj.mp done
      by_cases same : task = exited
      · exact Or.inr (Or.inl (same ▸ rfl))
      · exact (gone (waits_remove.mpr ⟨waited, same⟩)).elim
  | setPriority changed priority =>
      obtain rfl := Option.some_inj.mp done
      exact (gone (waits_reprioritize.mpr waited)).elim
  | _ =>
      obtain rfl := Option.some_inj.mp done
      exact (gone waited).elim

theorem memory_of_perform {event : Event} {address : Word} (enabled : view.Enabled event)
    (done : view.perform event = some next)
    (plain : ∀ futex, (view.futex futex).value = address → (view.futex futex).flags = 0)
    (others : ∀ value, event ≠ .store address value) :
    next.memory address = view.memory address := by
  cases event with
  | wait waiter futex expected =>
      obtain rfl := Option.some_inj.mp done
      rw [memory_wait]
      by_cases guards : address = (view.futex futex).value
      · have value : waitValue (view.futex futex) expected = expected := by
          simp [waitValue, flagSet, plain futex guards.symm]
        have seen := enabled.2.2
        rw [value, or_self] at seen
        rw [value, guards, Function.update_self]
        exact seen.symm
      · rw [Function.update_of_ne guards]
  | wake futex all =>
      obtain ⟨woken, wakes⟩ := exists_wakes done
      rw [wakes.memory]
      by_cases guards : address = (view.futex futex).value
      · rw [guards, Function.update_self]
        cases woken with
        | nil => simp [wokenValue, flagSet, plain futex guards.symm, value]
        | cons first rest => simp [wokenValue, flagSet, plain futex guards.symm, value]
      · rw [Function.update_of_ne guards]
  | store other value =>
      obtain rfl := Option.some_inj.mp done
      refine Function.update_of_ne ?_ _ _
      rintro rfl
      exact others value rfl
  | _ =>
      obtain rfl := Option.some_inj.mp done
      rfl

theorem futex_of_perform {event : Event} {futex : Word} (done : view.perform event = some next)
    (others : ∀ value flags, event ≠ .initFutex futex value flags) :
    next.futex futex = view.futex futex := by
  cases event with
  | wait waiter entry expected =>
      obtain rfl := Option.some_inj.mp done
      rw [futex_wait]
  | wake entry all =>
      obtain ⟨woken, wakes⟩ := exists_wakes done
      rw [wakes.entries]
  | initFutex other value flags =>
      obtain rfl := Option.some_inj.mp done
      refine Function.update_of_ne ?_ _ _
      rintro rfl
      exact others value flags rfl
  | _ =>
      obtain rfl := Option.some_inj.mp done
      rfl

end View

theorem event_writes {cores : Nat} [NeZero cores] (state : State Links cores)
    (action : Action cores) :
    match action with
    | .store address value => event state action = .store address value
    | .futexInit futex value flags => event state action = .initFutex futex value flags
    | action => (∀ address value, event state action ≠ .store address value) ∧
        ∀ futex value flags, event state action ≠ .initFutex futex value flags := by
  have source := event_from state action
  cases action with
  | store address value => rfl
  | futexInit futex value flags => rfl
  | _ =>
      constructor
      · intro address value same
        rw [same] at source
        cases source
      · intro futex value flags same
        rw [same] at source
        cases source

theorem ordered_of_reachable {cores : Nat} [NeZero cores] {state : State Links cores}
    (reached : (scheduler cores).Reachable state) : state.view.Ordered := by
  have viewed := @view_guarded cores _ (fun _ _ => True) state reached
  refine viewed.invariant (motive := View.Ordered) ?_ ?_
  · intro view begins
    exact View.ordered_initial begins
  · intro view event next ordered allowed done
    exact ordered.perform allowed.1 done

end PicoToolkit
