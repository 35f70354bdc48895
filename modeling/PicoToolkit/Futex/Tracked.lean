import PicoToolkit.Futex.Waiting
import PicoToolkit.Scheduler.Answer

/-!
Wakes of futexes that keep track of their owner, as those of locks do: the word names the task that was
the most urgent waiter, and that task waits no longer.
-/

namespace PicoToolkit

open Ring Tag Transition

structure Futex.Tracks (futex : Futex) : Prop where
  owner : flagSet futex.flags schedulerFutexOwnerTracking = true
  contention : flagSet futex.flags schedulerFutexContentionTracking = true

namespace View

variable {view next : View} {futex : Word}

def leftBehind (view : View) (futex queue : Word) : List Word :=
  (view.waiters queue).filter fun task => decide ((view.waiters futex).head? ≠ some task)

theorem waiters_restore (done : view.restore futex = some next)
    (idle : ∀ queue, ¬view.Waits (view.owner futex) queue) : next.waiters = view.waiters := by
  simp only [restore] at done
  split at done
  · obtain ⟨owned, _, rfl⟩ := Option.map_eq_some_iff.mp done
    funext queue
    exact if_neg (idle queue)
  · obtain rfl := Option.some_inj.mp done
    rfl

theorem waiters_wake (done : view.wake futex false = some next)
    (idle : ∀ queue, ¬view.Waits (view.owner futex) queue) (queue : Word) :
    next.waiters queue = view.leftBehind futex queue := by
  obtain ⟨restored, first, rfl⟩ := Option.map_eq_some_iff.mp done
  have same := waiters_restore first idle
  have parts := restore_restored first
  change (wakeWaiters futex false _ restored).waiters queue = _
  rw [wakeWaiters_first rfl, leftBehind, same]
  cases waiters : view.waiters futex with
  | nil =>
      simp only [List.head?_nil, ne_eq, reduceCtorEq, not_false_eq_true, decide_true]
      rw [same]
      exact (List.filter_eq_self.mpr fun _ _ => rfl).symm
  | cons task rest =>
      simp only
      rw [waiters_handOver, same]
      apply List.filter_congr
      intro other _
      simp only [List.head?_cons, ne_eq, Option.some_inj]
      exact decide_eq_decide.mpr (not_congr eq_comm)

/-- The word names the task that was woken, or still the owner if nobody waits; it is tagged while others
wait. -/
theorem memory_wake (done : view.wake futex false = some next) (tracks : (view.futex futex).Tracks)
    (idle : ∀ queue, ¬view.Waits (view.owner futex) queue) :
    ∃ value, next.memory = Function.update view.memory (view.futex futex).value value ∧
      (next.waiters futex ≠ [] → value = tag (untag value)) ∧
      match view.waiters futex with
      | [] => value = view.owner futex
      | first :: _ => untag value = untag first := by
  obtain ⟨restored, first, rfl⟩ := Option.map_eq_some_iff.mp done
  have same := waiters_restore first idle
  have parts := restore_restored first
  have entry : (wakeWaiters futex false (restored.waiters futex).length restored).futex =
      view.futex := (wakeWaiters_fields futex false _).2.1.trans parts.futex
  simp only [trackContention, setValue, value, entry, tracks.contention, if_true]
  rw [wakeWaiters_first rfl, same]
  cases waiters : view.waiters futex with
  | nil =>
      refine ⟨_, ?_, fun left => (left (same ▸ waiters)).elim, rfl⟩
      simp only [same, waiters, List.isEmpty_nil, if_true, parts.memory]
      rfl
  | cons task rest =>
      have handed : (((restored.remove task).trackOwner futex task).adopt futex task).memory =
          Function.update view.memory (view.futex futex).value task := by
        rw [memory_handOver, parts.futex, parts.memory, if_pos tracks.owner]
      simp only [handed, Function.update_self, Function.update_idem]
      refine ⟨_, rfl, fun left => ?_, ?_⟩
      · rw [if_neg fun empty => left (List.isEmpty_iff.mp empty), untag_tag, tag_untag]
      · split
        · exact untag_untag task
        · exact untag_tag task

theorem owned_wake {lists : Word → List Word} (done : view.wake futex false = some next)
    (tracks : (view.futex futex).Tracks) (represents : view.owned.Represents lists) :
    ∃ lists, next.owned.Represents lists := by
  obtain ⟨restored, first, rfl⟩ := Option.map_eq_some_iff.mp done
  change ∃ lists, (wakeWaiters futex false _ restored).owned.Represents lists
  have parts := restore_restored first
  have loose : ∃ lists, restored.owned.Represents lists ∧
      ((view.futex futex).inherits = true → ∀ list, futex ∉ lists list) := by
    simp only [restore] at first
    split at first
    · obtain ⟨owned, _, rfl⟩ := Option.map_eq_some_iff.mp first
      refine ⟨_, (schedListRemove_eq represents (.node futex)).symm ▸ represents.unlink futex, ?_⟩
      intro _ list member
      simp at member
    · rename_i plain
      obtain rfl := Option.some_inj.mp first
      exact ⟨lists, represents, fun inherits => (plain inherits).elim⟩
  obtain ⟨after, represents, loose⟩ := loose
  rw [wakeWaiters_first rfl]
  split
  · exact ⟨after, represents⟩
  · rename_i task rest waiters
    rw [adopt]
    split
    · rename_i contended
      rw [Bool.and_eq_true] at contended
      have inherits : (view.futex futex).inherits = true := by
        rw [Futex.inherits, tracks.owner, Bool.and_true]
        rw [← parts.futex]
        exact contended.1
      exact ⟨_, represents_add represents task (loose inherits)⟩
    · exact ⟨after, represents⟩

end View

section Marker

variable {cores : Nat} {state next : Plain cores} {core : Fin cores} {task other futex : Word}

theorem marker_setTask (change : Task → Task)
    (same : (change (state.task task)).marker = (state.task task).marker) :
    ((state.setTask task change).task other).marker = (state.task other).marker := by
  by_cases touched : other = task
  · subst other
    simp [State.setTask, same]
  · simp [State.setTask, touched]

theorem marker_queuePush (queue : QueueId) :
    ((schedQueuePush queue task state).task other).marker = (state.task other).marker := by
  by_cases same : other = task
  · subst other
    simp [schedQueuePush, State.setTask]
  · simp [schedQueuePush, State.setTask, same]

theorem marker_queueRemove :
    ((schedQueueRemove task state).task other).marker = (state.task other).marker :=
  marker_setTask _ rfl

theorem marker_reprioritize (newPriority : Nat) :
    ((schedQueueReprioritize task newPriority state).task other).marker =
      (state.task other).marker := by
  rw [schedQueueReprioritize]
  have changed : ((state.setTask task fun entry =>
      { entry with currentPriority := newPriority }).task other).marker =
      (state.task other).marker := marker_setTask _ rfl
  split
  · exact changed
  · rw [marker_queuePush, marker_queueRemove, changed]

theorem marker_wakeWaiter :
    ((schedulerWakeWaiter futex task state).task other).marker = (state.task other).marker := by
  have tracked : ((schedulerTrackOwner futex task state).task other).marker =
      (state.task other).marker := by
    simp only [schedulerTrackOwner]
    split
    · rfl
    · rfl
  have adopted : ((schedulerAdopt futex task (schedulerTrackOwner futex task state)).task
      other).marker = (state.task other).marker := by
    rw [schedulerAdopt]
    split
    · exact (marker_reprioritize _).trans tracked
    · exact tracked
  rw [schedulerWakeWaiter, marker_queuePush]
  exact (marker_setTask _ rfl).trans adopted

theorem marker_wakeFutex {all : Bool} {woken : Nat}
    (done : schedulerWakeFutex futex all state = some (next, woken)) :
    (next.task other).marker = (state.task other).marker :=
  wakeFutex_keeps (motive := fun after => (after.task other).marker = (state.task other).marker)
    (fun _ _ => marker_reprioritize _)
    (fun _ _ _ same => (marker_wakeWaiter.trans marker_queueRemove).trans same)
    (fun _ _ _ same => same) rfl done

theorem marker_wakeSvc {all : Bool} (done : schedulerWakeSvc core futex all state = some next) :
    (next.task other).marker = (state.task other).marker := by
  simp only [schedulerWakeSvc] at done
  split at done
  · obtain ⟨⟨after, woken⟩, served, rfl⟩ := Option.map_eq_some_iff.mp done
    have marked : ((returnResult core (.value (BitVec.ofNat 32 woken)) after).task other).marker =
        (state.task other).marker := by
      rw [← marker_wakeFutex served, returnResult]
      split
      · rfl
      · exact marker_setTask _ rfl
    simp only
    split
    · exact marked
    · exact marked
  · cases done

theorem inThread_wakeSvc {all : Bool} (done : schedulerWakeSvc core futex all state = some next)
    (on : Fin cores) : next.inThread on = state.inThread on := by
  simp only [schedulerWakeSvc] at done
  split at done
  · obtain ⟨⟨after, woken⟩, served, rfl⟩ := Option.map_eq_some_iff.mp done
    have locals : (returnResult core (.value (BitVec.ofNat 32 woken)) after).coreLocal =
        state.coreLocal := by
      rw [← coreLocal_wakeFutex served, returnResult]
      split
      · rfl
      · rfl
    have stays : ∀ other : Plain cores, other.coreLocal = state.coreLocal →
        other.inThread on = state.inThread on ∧
          (schedulerRequestSwitch core other).inThread on = state.inThread on := by
      intro other same
      have requested : ∀ on, ((schedulerRequestSwitch core other).coreLocal on).pc =
            (state.coreLocal on).pc ∧
          ((schedulerRequestSwitch core other).coreLocal on).currentTask =
            (state.coreLocal on).currentTask := by
        intro on
        simp only [schedulerRequestSwitch, State.setCore, same, Function.update_apply]
        split
        · rename_i own
          rw [own]
          exact ⟨rfl, rfl⟩
        · exact ⟨rfl, rfl⟩
      constructor
      · simp only [State.inThread, State.spinFree, State.currentTask, same]
      · simp only [State.inThread, State.spinFree, State.currentTask, requested]
    simp only
    split
    · exact (stays _ locals).2
    · exact (stays _ locals).1
  · cases done

end Marker

section Wake

variable {cores : Nat} [NeZero cores] {state next : State Links cores} {core : Fin cores}
  {futex : Word} {lists : Word → List Word}

/-- A wake succeeds if the futex and its owner are valid, and the rings of contended futexes are well
formed. -/
theorem exists_futexWake (thread : state.inThread core) (valid : (state.futex futex).marker)
    (owner : (state.task (untag (state.futexValue futex))).marker)
    (represents : state.ownedFutexes.Represents lists) (all : Bool) :
    ∃ next, step state (.futexWake core futex all) = some next := by
  have restores : ∃ restored, schedulerRestore futex state = some restored := by
    rw [schedulerRestore]
    split
    · have removed := (schedListRemove_eq represents (.node futex)).symm ▸ represents.unlink futex
      have walks := Links.walk?_of_path (removed.ring (untag (state.futexValue futex)))
        (Nat.lt_succ_of_le (length_le_addressSpace (removed.nodup _)))
      simp only [schedulerRestoreOwner, owner, if_true]
      exact ⟨_, Option.map_eq_some_iff.mpr ⟨_, walks, rfl⟩⟩
    · exact ⟨state, rfl⟩
  obtain ⟨restored, restores⟩ := restores
  apply Option.isSome_iff_exists.mp
  simp only [step, thread, if_true, schedulerWakeSvc, valid, schedulerWakeFutex, restores,
    Option.map_some, Option.isSome_some]

theorem frame_futexWake (reached : (scheduler cores).Reachable state) {all : Bool}
    (moved : step state (.futexWake core futex all) = some next) :
    (∀ task, (next.task task).marker = (state.task task).marker) ∧
      next.inThread core = state.inThread core ∧ state.view.wake futex all = some next.view := by
  obtain ⟨follows, abstractly⟩ := (scheduler_simulation cores).reachable reached
  have follow := ((scheduler_simulation cores).step state (.futexWake core futex all) next follows
    abstractly moved).2
  have served : schedulerWakeSvc core futex all state.plain = some next.plain := by
    simp only [abstractScheduler, step] at follow
    rw [Option.ite_none_right_eq_some] at follow
    exact follow.2
  exact ⟨fun task => marker_wakeSvc served, inThread_wakeSvc served core,
    (@view_transition _ _ state next (.futexWake core futex all) reached moved).2⟩

end Wake

section Plain

variable {cores : Nat} [NeZero cores]

def Event.withoutPi : Event → Bool
  | .initFutex _ _ flags => !flagSet flags schedulerFutexPi
  | _ => true

theorem schedListInit_empty {H E : Type} [DecidableEq H] [DecidableEq E] (list : Node H E) :
    schedListInit (Links.empty : Links H E) list = Links.empty :=
  schedListInit_loose Links.empty_represents rfl

theorem View.owned_wakeWaiters {view : View} {futex : Word}
    (alone : flagSet (view.futex futex).flags schedulerFutexPi → (view.waiters futex).length ≤ 1)
    (all : Bool) (fuel : Nat) : (wakeWaiters futex all fuel view).owned = view.owned := by
  induction fuel generalizing view with
  | zero => rfl
  | succ fuel ih =>
      rw [wakeWaiters]
      split
      · rfl
      · rename_i task rest queue
        have left : (((view.remove task).trackOwner futex task).adopt futex task).waiters futex =
            (task :: rest).filter (· ≠ task) := by
          rw [waiters_handOver, queue]
        have none_ : flagSet (view.futex futex).flags schedulerFutexPi →
            (task :: rest).filter (· ≠ task) = [] := by
          intro pi
          have one := alone pi
          rw [queue, List.length_cons] at one
          obtain rfl := List.length_eq_zero_iff.mp (Nat.le_zero.mp (Nat.le_of_succ_le_succ one))
          simp
        have adopts : (((view.remove task).trackOwner futex task).adopt futex task).owned =
            view.owned := by
          have stays : ((view.remove task).trackOwner futex task).adopt futex task =
              (view.remove task).trackOwner futex task := by
            refine if_neg ?_
            change ¬(flagSet (view.futex futex).flags schedulerFutexPi &&
              !((view.waiters futex).filter (· ≠ task)).isEmpty) = true
            rw [queue, Bool.and_eq_true]
            rintro ⟨pi, some⟩
            rw [none_ pi] at some
            cases some
          rw [stays]
          rfl
        simp only
        split
        · exact adopts
        · refine (ih fun pi => ?_).trans adopts
          rw [handed_futex] at pi
          rw [left, none_ pi]
          exact Nat.zero_le 1

structure View.Unlinked (view : View) : Prop where
  owned : view.owned = Links.empty
  plain : ∀ futex, flagSet (view.futex futex).flags schedulerFutexPi = false

theorem View.Unlinked.perform {view next : View} (unlinked : view.Unlinked) {event : Event}
    (plain : event.withoutPi = true) (done : view.perform event = some next) : next.Unlinked := by
  obtain ⟨owned, flags⟩ := unlinked
  have inherits : ∀ futex, (view.futex futex).inherits = false := by
    intro futex
    rw [Futex.inherits, flags, Bool.false_and]
  cases event with
  | quiet | exit task | depart task | setPriority task priority | store address value =>
      obtain rfl := Option.some_inj.mp done
      exact ⟨owned, flags⟩
  | create task priority =>
      obtain rfl := Option.some_inj.mp done
      refine ⟨?_, flags⟩
      rw [View.create, owned]
      exact schedListInit_empty _
  | initFutex futex value set =>
      obtain rfl := Option.some_inj.mp done
      constructor
      · rw [View.initFutex, owned]
        exact schedListInit_empty _
      · intro other
        simp only [View.initFutex, Function.update_apply]
        split
        · simpa [Event.withoutPi] using plain
        · exact flags other
  | wait task futex expected =>
      obtain rfl := Option.some_inj.mp done
      have waits : ∀ value, view.wait task futex value = (view.setValue futex value).enqueue futex task :=
        fun value => if_neg (by
          have none_ := inherits futex
          simpa [View.setValue, View.enqueue] using none_)
      rw [waits]
      exact ⟨owned, flags⟩
  | wake futex all =>
      obtain ⟨restored, first, rfl⟩ := Option.map_eq_some_iff.mp done
      rw [View.restore, inherits] at first
      obtain rfl := Option.some_inj.mp first
      constructor
      · exact (View.owned_wakeWaiters (fun pi => by simp [flags] at pi) all _).trans owned
      · intro other
        have same := (@View.wakeWaiters_fields view futex all (view.waiters futex).length).2.1
        change flagSet ((View.wakeWaiters futex all _ view).futex other).flags _ = false
        rw [same]
        exact flags other

theorem owned_of_withoutPi {state : State Links cores}
    (reached : (scheduler cores).Guarded
      (fun state action => (event state action).withoutPi = true) state) :
    state.ownedFutexes = Links.empty := by
  have viewed := @view_guarded cores _ (fun _ event => event.withoutPi = true) state reached
  have unlinked : state.view.Unlinked := by
    refine viewed.invariant (motive := View.Unlinked) ?_ ?_
    · rintro view ⟨memory, rfl⟩
      have plain : flagSet (0 : Word) schedulerFutexPi = false := by decide
      exact ⟨rfl, fun _ => plain⟩
    · intro view event next unlinked allowed done
      exact unlinked.perform allowed.2 done
  exact unlinked.owned

end Plain

end PicoToolkit
