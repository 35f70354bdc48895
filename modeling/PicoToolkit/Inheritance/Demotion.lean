import PicoToolkit.Inheritance.Event
import PicoToolkit.Inheritance.Order

/-!
Priority inheritance and the base priority.  A boost never demotes; a hand-over does, unless the
waiters that remain are as urgent as the task that is handed the futex.
-/

namespace PicoToolkit

open Ring Tag Transition

theorem foldl_min_le {α : Type} (elements : List α) (bound : Nat) (value : α → Nat) :
    elements.foldl (fun least element => min least (value element)) bound ≤ bound := by
  induction elements generalizing bound with
  | nil => exact Nat.le_refl bound
  | cons first rest ih =>
      rw [List.foldl_cons]
      exact Nat.le_trans (ih _) (Nat.min_le_left ..)

namespace View

variable {view : View} {task other futex : Word}

def fallback (view : View) (futex : Word) : Nat :=
  let unlinked := view.unlinkOwned futex
  unlinked.restoredPriority futex (schedListEntries unlinked.owned (view.owner futex))

/-- The priority with which a task is woken: the owner, should it wait for its own futex, has fallen
back by then. -/
def wakePriority (view : View) (futex task : Word) : Nat :=
  if (view.futex futex).inherits ∧ task = view.owner futex then view.fallback futex
  else view.current task

/-- Whoever is handed the futex is its only waiter, or another waiter is as urgent; if several tasks
are handed the futex in turn, all waiters are equally urgent. -/
def FairHandOver (view : View) (futex : Word) (all : Bool) : Prop :=
  let flags := (view.futex futex).flags
  let waiters := view.waiters futex
  flagSet flags schedulerFutexPi →
    if all ∧ ¬flagSet flags schedulerFutexOwnerTracking then
      ∀ left ∈ waiters, ∀ right ∈ waiters, view.current left = view.current right
    else
      ∀ receiver ∈ waiters,
        (∀ other ∈ waiters,
          view.wakePriority futex receiver ≤ view.wakePriority futex other) →
        (∀ other ∈ waiters, other = receiver) ∨
        ∃ other ∈ waiters, other ≠ receiver ∧
          view.wakePriority futex other ≤ view.wakePriority futex receiver

instance (view : View) (futex : Word) (all : Bool) : Decidable (view.FairHandOver futex all) :=
  inferInstanceAs (Decidable (_ → _))

def Fair (view : View) : Event → Prop
  | .wake futex all => view.FairHandOver futex all
  | _ => True

instance (view : View) : (event : Event) → Decidable (view.Fair event)
  | .wake futex all => inferInstanceAs (Decidable (view.FairHandOver futex all))
  | .quiet | .create _ _ | .exit _ | .depart _ | .setPriority _ _ | .wait _ _ _ | .store _ _
  | .initFutex _ _ _ => instDecidableTrue

def Undemoted (view : View) : Prop := ∀ task, view.current task ≤ view.base task

theorem current_reprioritize (priority : Nat) :
    (view.reprioritize task priority).current other =
      if other = task then priority else view.current other := by
  simp [reprioritize, Function.update_apply]

theorem Undemoted.reprioritize (undemoted : view.Undemoted) {priority : Nat}
    (enough : priority ≤ view.base task) : (view.reprioritize task priority).Undemoted := by
  intro other
  rw [current_reprioritize]
  split
  · subst other
    exact enough
  · exact undemoted other

theorem Undemoted.boost (undemoted : view.Undemoted) (futex owner : Word) :
    (view.boost futex owner).Undemoted := by
  have linked : (view.linkOwned futex owner).Undemoted := undemoted
  simp only [View.boost]
  split
  · rename_i less
    exact linked.reprioritize (Nat.le_trans (Nat.le_of_lt less) (linked owner))
  · exact linked

structure Restored (view : View) (futex : Word) (next : View) : Prop where
  tasks : next.tasks = view.tasks
  base : next.base = view.base
  current : ∀ task, next.current task = view.wakePriority futex task
  waits : ∀ task other, next.Waits task other ↔ view.Waits task other
  futex : next.futex = view.futex
  memory : next.memory = view.memory

theorem restore_restored {next : View} (done : view.restore futex = some next) :
    view.Restored futex next := by
  simp only [restore] at done
  split at done
  · rename_i inherits
    obtain ⟨owned, walked, rfl⟩ := Option.map_eq_some_iff.mp done
    refine ⟨rfl, rfl, ?_, fun task other => waits_reprioritize, rfl, rfl⟩
    intro task
    have entries : schedListEntries (view.unlinkOwned futex).owned (view.owner futex) = owned :=
      Links.walk_of_walk? walked
    rw [current_reprioritize, wakePriority, fallback, entries]
    by_cases isOwner : task = view.owner futex
    · rw [if_pos isOwner, if_pos ⟨inherits, isOwner⟩]
    · rw [if_neg isOwner, if_neg fun both => isOwner both.2]
      rfl
  · rename_i plain
    obtain rfl := Option.some_inj.mp done
    refine ⟨rfl, rfl, ?_, fun _ _ => Iff.rfl, rfl, rfl⟩
    intro task
    rw [wakePriority, if_neg (fun both => plain both.1)]

theorem wakePriority_le (undemoted : view.Undemoted) :
    view.wakePriority futex task ≤ view.base task := by
  rw [wakePriority]
  split
  · rename_i isOwner
    rw [isOwner.2]
    exact foldl_min_le _ _ _
  · exact undemoted task

theorem current_handOver :
    (((view.remove task).trackOwner futex task).adopt futex task).current other =
      if other = task ∧ flagSet (view.futex futex).flags schedulerFutexPi ∧
          (view.remove task).waiters futex ≠ [] then
        (view.remove task).highest futex
      else view.current other := by
  rw [adopt]
  by_cases contended : flagSet (view.futex futex).flags schedulerFutexPi ∧
      (view.remove task).waiters futex ≠ []
  · refine (congrFun (congrArg View.current (if_pos ?_)) other).trans ?_
    · simp only [Bool.and_eq_true, Bool.not_eq_true', List.isEmpty_eq_false_iff]
      exact contended
    · rw [current_reprioritize]
      by_cases same : other = task
      · rw [if_pos same, if_pos ⟨same, contended⟩]
        rfl
      · rw [if_neg same, if_neg fun all => same all.1]
        rfl
  · refine (congrFun (congrArg View.current (if_neg ?_)) other).trans ?_
    · simp only [Bool.and_eq_true, Bool.not_eq_true', List.isEmpty_eq_false_iff]
      exact contended
    · rw [if_neg fun all => contended all.2]
      rfl

theorem handOver_fields :
    (((view.remove task).trackOwner futex task).adopt futex task).base = view.base ∧
      (((view.remove task).trackOwner futex task).adopt futex task).futex = view.futex ∧
      (((view.remove task).trackOwner futex task).adopt futex task).tasks = view.tasks := by
  rw [adopt]
  split
  · exact ⟨rfl, rfl, rfl⟩
  · exact ⟨rfl, rfl, rfl⟩

theorem handed_futex :
    (((view.remove task).trackOwner futex task).adopt futex task).futex = view.futex :=
  handOver_fields.2.1

theorem waits_handOver {queue : Word} :
    (((view.remove task).trackOwner futex task).adopt futex task).Waits other queue ↔
      view.Waits other queue ∧ other ≠ task := by
  rw [adopt]
  split
  · rw [waits_reprioritize]
    exact waits_remove
  · exact waits_remove

theorem wakeWaiters_fields (futex : Word) (all : Bool) (fuel : Nat) :
    (wakeWaiters futex all fuel view).base = view.base ∧
      (wakeWaiters futex all fuel view).futex = view.futex ∧
      (wakeWaiters futex all fuel view).tasks = view.tasks := by
  induction fuel generalizing view with
  | zero => exact ⟨rfl, rfl, rfl⟩
  | succ fuel ih =>
      rw [wakeWaiters]
      split
      · exact ⟨rfl, rfl, rfl⟩
      · rename_i task rest queue
        obtain ⟨base, entry, tasks⟩ : _ ∧ _ ∧ _ := handOver_fields
        simp only
        split
        · exact ⟨base, entry, tasks⟩
        · obtain ⟨baseRest, entryRest, tasksRest⟩ :=
            @ih (((view.remove task).trackOwner futex task).adopt futex task)
          exact ⟨baseRest.trans base, entryRest.trans entry, tasksRest.trans tasks⟩

/-- Waking the waiters changes no priority if there is no inheritance, or if they are all equally
urgent. -/
theorem current_wakeWaiters_level
    (level : flagSet (view.futex futex).flags schedulerFutexPi →
      ∀ left right, view.Waits left futex → view.Waits right futex →
        view.current left = view.current right) (all : Bool) (fuel : Nat) :
    (wakeWaiters futex all fuel view).current = view.current := by
  induction fuel generalizing view with
  | zero => rfl
  | succ fuel ih =>
      rw [wakeWaiters]
      split
      · rfl
      · rename_i task rest queue
        have waits : view.Waits task futex := by simp [Waits, queue]
        have handed : (((view.remove task).trackOwner futex task).adopt futex task).current =
            view.current := by
          funext other
          rw [current_handOver]
          split
          · rename_i adopts
            obtain ⟨rfl, inherits, contended⟩ := adopts
            obtain ⟨next, nextWaits, same⟩ := exists_highest contended
            rw [same]
            exact level inherits next other (waits_remove.mp nextWaits).1 waits
          · rfl
        simp only
        split
        · exact handed
        · refine (ih fun inherits left right inLeft inRight => ?_).trans handed
          rw [handed_futex] at inherits
          rw [handed]
          exact level inherits left right (waits_handOver.mp inLeft).1 (waits_handOver.mp inRight).1

/-- If one task is handed the futex, it is the most urgent waiter, and gets the priority of the
next one. -/
theorem current_wakeWaiters_single {all : Bool} {fuel : Nat}
    (single : !all || flagSet (view.futex futex).flags schedulerFutexOwnerTracking)
    (fair : flagSet (view.futex futex).flags schedulerFutexPi →
      ∀ receiver rest, view.waiters futex = receiver :: rest →
        (view.remove receiver).waiters futex ≠ [] →
        (view.remove receiver).highest futex ≤ view.current receiver) :
    (wakeWaiters futex all fuel view).current task ≤ view.current task := by
  cases fuel with
  | zero => exact Nat.le_refl _
  | succ fuel =>
      rw [wakeWaiters]
      split
      · exact Nat.le_refl _
      · rename_i receiver rest queue
        have last : !all || flagSet ((((view.remove receiver).trackOwner futex receiver).adopt futex
            receiver).futex futex).flags schedulerFutexOwnerTracking := by
          rw [handed_futex]
          exact single
        simp only
        rw [if_pos last, current_handOver]
        split
        · rename_i adopts
          obtain ⟨rfl, inherits, contended⟩ := adopts
          exact fair inherits task rest queue contended
        · exact Nat.le_refl _

theorem current_wake_le (ordered : view.Ordered) {all : Bool} (fair : view.FairHandOver futex all)
    {next : View} (done : view.wake futex all = some next) :
    next.current task ≤ view.wakePriority futex task ∧ next.base = view.base := by
  obtain ⟨restored, first, rfl⟩ := Option.map_eq_some_iff.mp done
  have parts := restore_restored first
  have ordered := ordered.restore first
  refine ⟨?_, (wakeWaiters_fields futex all _).1.trans parts.base⟩
  change (wakeWaiters futex all _ restored).current task ≤ _
  rw [← parts.current]
  by_cases several : all ∧ ¬flagSet (view.futex futex).flags schedulerFutexOwnerTracking
  · have plain : ∀ other, restored.current other = view.current other := by
      intro other
      rw [parts.current, wakePriority, if_neg]
      simp [Futex.inherits, several.2]
    rw [current_wakeWaiters_level]
    intro inherits left right inLeft inRight
    rw [parts.futex] at inherits
    have level := fair inherits
    rw [if_pos several] at level
    rw [plain, plain]
    exact level left ((parts.waits _ _).mp inLeft) right ((parts.waits _ _).mp inRight)
  · refine current_wakeWaiters_single ?_ ?_
    · rw [parts.futex]
      simpa [imp_iff_not_or, not_and_or] using several
    · intro inherits receiver rest queue contended
      rw [parts.futex] at inherits
      have alone := fair inherits
      rw [if_neg several] at alone
      have waits : restored.Waits receiver futex := by simp [Waits, queue]
      have least : ∀ other, view.Waits other futex →
          view.wakePriority futex receiver ≤ view.wakePriority futex other := by
        intro other otherWaits
        rw [← parts.current, ← parts.current]
        have bound := ordered.highest_le ((parts.waits _ _).mpr otherWaits)
        rw [highest, queue] at bound
        exact bound
      rcases alone receiver ((parts.waits _ _).mp waits) least with only |
          ⟨other, otherWaits, different, enough⟩
      · obtain ⟨other, otherWaits, _⟩ := exists_highest contended
        obtain ⟨oldWaits, different⟩ := waits_remove.mp otherWaits
        exact (different (only other ((parts.waits _ _).mp oldWaits))).elim
      · have bound := (ordered.remove receiver).highest_le
          (waits_remove.mpr ⟨(parts.waits _ _).mpr otherWaits, different⟩)
        refine Nat.le_trans bound ?_
        change restored.current other ≤ restored.current receiver
        rw [parts.current, parts.current]
        exact enough

theorem Undemoted.perform (undemoted : view.Undemoted) (ordered : view.Ordered) {event : Event}
    (fair : view.Fair event) {next : View} (done : view.perform event = some next) :
    next.Undemoted := by
  cases event with
  | quiet =>
      obtain rfl := Option.some_inj.mp done
      exact undemoted
  | create task priority =>
      obtain rfl := Option.some_inj.mp done
      intro other
      simp only [create, Function.update_apply]
      split
      · exact Nat.le_refl _
      · exact undemoted other
  | exit task =>
      obtain rfl := Option.some_inj.mp done
      exact undemoted
  | depart task =>
      obtain rfl := Option.some_inj.mp done
      exact undemoted
  | setPriority task priority =>
      obtain rfl := Option.some_inj.mp done
      intro other
      simp only [setPriority, View.reprioritize, Function.update_apply]
      split
      · exact Nat.le_refl _
      · exact undemoted other
  | wait task futex expected =>
      obtain rfl := Option.some_inj.mp done
      have waiting : ((view.setValue futex (waitValue (view.futex futex) expected)).enqueue futex
          task).Undemoted := undemoted
      simp only [View.wait]
      split
      · exact waiting.boost futex _
      · exact waiting
  | wake futex all =>
      intro task
      obtain ⟨woken, base⟩ : next.current task ≤ _ ∧ _ := current_wake_le ordered fair done
      rw [base]
      exact Nat.le_trans woken (wakePriority_le undemoted)
  | store address value =>
      obtain rfl := Option.some_inj.mp done
      exact undemoted
  | initFutex futex value flags =>
      obtain rfl := Option.some_inj.mp done
      exact undemoted

end View

theorem undemoted_of_fair {view : View}
    (reached : contention.Guarded (fun view event => view.Enabled event ∧ view.Fair event) view) :
    view.Ordered ∧ view.Undemoted := by
  refine reached.invariant (motive := fun view => view.Ordered ∧ view.Undemoted) ?_ ?_
  · rintro view begins
    refine ⟨View.ordered_initial begins, ?_⟩
    obtain ⟨memory, rfl⟩ := begins
    exact fun _ => Nat.le_refl 0
  · rintro view event next ⟨ordered, undemoted⟩ ⟨enabled, fair⟩ done
    exact ⟨ordered.perform enabled done, undemoted.perform ordered fair done⟩

/-- If every wake hands over fairly, no task is ever less urgent than its base priority, and a task
that is handed a futex stays as urgent as it was. -/
theorem current_le_base_of_fair {cores : Nat} [NeZero cores] {state : State Links cores}
    (reached : (scheduler cores).Guarded
      (fun state action => state.view.Fair (event state action)) state) :
    (∀ task, (state.task task).currentPriority ≤ (state.task task).basePriority) ∧
      ∀ action next futex all task, event state action = .wake futex all →
        state.view.FairHandOver futex all → (scheduler cores).step state action = some next →
        state.view.Waits task futex → ¬next.view.Waits task futex →
        task ≠ state.view.owner futex →
          (next.task task).currentPriority ≤ (state.task task).currentPriority := by
  obtain ⟨ordered, undemoted⟩ := undemoted_of_fair (view_guarded reached)
  refine ⟨undemoted, ?_⟩
  intro action next futex all task isWake fair moved _ _ notOwner
  have performed := (view_transition reached.reachable moved).2
  rw [isWake] at performed
  have woken : next.view.current task ≤ _ := (View.current_wake_le ordered fair performed).1
  rwa [View.wakePriority, if_neg fun both => notOwner both.2] at woken

/-- The task at 0x1000 owns a futex with priority inheritance; the one at 0x2000 waits for it. -/
def oneWaiter : List (Action 1) :=
  [Action.create 0 0x1000 { flags := schedulerPrimordialTask, priority := 30 },
    .futexInit 0x100 0x104 7, .store 0x104 0x1000, .start 0,
    .create 0 0x2000 { priority := 20 }] ++ switchPass ++
  [Action.futexWait 0 0x100 0x1000 schedulerWaitForever] ++ switchPass

def twoWaiters : List (Action 1) :=
  oneWaiter ++ [Action.create 0 0x3000 { priority := 5 }] ++ switchPass ++
  [Action.futexWait 0 0x100 0x1000 schedulerWaitForever] ++ switchPass

theorem current_le_base_of_fair_oneWaiter :
    ∃ state next,
      (scheduler 1).Guarded (fun state action => state.view.Fair (event state action)) state ∧
      (scheduler 1).step state (.futexWake 0 0x100 false) = some next ∧
      (∀ task, (state.task task).currentPriority ≤ (state.task task).basePriority) ∧
      (next.task 0x2000).currentPriority ≤ (state.task 0x2000).currentPriority := by
  obtain ⟨state, reached, waits, handed, other, fair, possible⟩ := System.exists_of_run
    (fun state action => state.view.Fair (event state action)) (initial_bootState 1) oneWaiter
    (fun state => state.view.Waits 0x2000 0x100 ∧
      (∀ next ∈ (scheduler 1).step state (.futexWake 0 0x100 false),
        ¬next.view.Waits 0x2000 0x100) ∧
      0x2000 ≠ state.view.owner 0x100 ∧ state.view.FairHandOver 0x100 false ∧
      ((scheduler 1).step state (.futexWake 0 0x100 false)).isSome) (by decide)
  obtain ⟨next, moved⟩ := Option.isSome_iff_exists.mp possible
  have safe := current_le_base_of_fair reached
  refine ⟨state, next, reached, moved, safe.1, ?_⟩
  exact safe.2 (.futexWake 0 0x100 false) next 0x100 false 0x2000 rfl fair moved waits
    (handed next moved) other

theorem handOver_demotes :
    ∃ state, (scheduler 1).Reachable state ∧ ∃ task ∈ state.taskList,
      (state.task task).basePriority < (state.task task).currentPriority := by
  obtain ⟨state, reached, demoted⟩ := System.exists_of_run (fun _ _ => True)
    (initial_bootState 1) (twoWaiters ++ [.futexWake 0 0x100 false])
    (fun state => 0x3000 ∈ state.taskList ∧
      (state.task 0x3000).basePriority < (state.task 0x3000).currentPriority) (by decide)
  exact ⟨state, reached, 0x3000, demoted⟩

end PicoToolkit
