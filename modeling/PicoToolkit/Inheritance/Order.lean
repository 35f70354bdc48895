import PicoToolkit.Inheritance.View

/-!
Every waiter queue is in order of urgency, and every task waits in one queue at most.
-/

namespace PicoToolkit

open Ring Tag

section Insert

variable {current : Word → Nat} {task : Word} {tasks : List Word}

@[simp]
theorem mem_insertByUrgency {other : Word} :
    other ∈ insertByUrgency current task tasks ↔ other = task ∨ other ∈ tasks :=
  mem_insertEntry

theorem insertByUrgency_sorted
    (sorted : tasks.Pairwise fun left right => current left ≤ current right) :
    (insertByUrgency current task tasks).Pairwise fun left right =>
      current left ≤ current right := by
  apply pairwise_insertEntry sorted
  · intro other _ notLess
    exact Nat.not_lt.mp (by simpa using notLess)
  · intro other _ less
    exact Nat.le_of_lt (by simpa using less)
  · intro left _ right _ order less
    have stillLess := Nat.lt_of_lt_of_le (by simpa using less) order
    simpa using stillLess

end Insert

namespace View

variable {view : View} {task other futex : Word}

@[simp]
theorem waits_remove :
    (view.remove task).Waits other futex ↔ view.Waits other futex ∧ other ≠ task := by
  simp [Waits, remove]

@[simp]
theorem waits_enqueue {queue : Word} :
    (view.enqueue queue task).Waits other futex ↔
      (futex = queue ∧ other = task) ∨ view.Waits other futex := by
  by_cases same : futex = queue
  · subst futex
    simp [Waits, waiters_enqueue]
  · simp [Waits, waiters_enqueue, same]

@[simp]
theorem waits_reprioritize {priority : Nat} :
    (view.reprioritize task priority).Waits other futex ↔ view.Waits other futex := by
  simp only [Waits, reprioritize]
  split
  · rename_i member
    rw [mem_insertByUrgency, List.mem_filter]
    by_cases same : other = task
    · subst other
      simp [member]
    · simp [same]
  · rfl

structure Ordered (view : View) : Prop where
  sorted : ∀ futex, (view.waiters futex).Pairwise fun left right =>
    view.current left ≤ view.current right
  single : ∀ task left right, view.Waits task left → view.Waits task right → left = right
  listed : ∀ task futex, view.Waits task futex → task ∈ view.tasks
  aligned : ∀ task ∈ view.tasks, task ≠ 0 ∧ Untagged task

theorem Ordered.congr {next : View} (ordered : view.Ordered) (waiters : next.waiters = view.waiters)
    (current : next.current = view.current) (tasks : next.tasks = view.tasks) : next.Ordered where
  sorted futex := by
    rw [waiters, current]
    exact ordered.sorted futex
  single task left right := by
    simp only [Waits, waiters]
    exact ordered.single task left right
  listed task futex := by
    simp only [Waits, waiters, tasks]
    exact ordered.listed task futex
  aligned := by
    rw [tasks]
    exact ordered.aligned

theorem Ordered.remove (ordered : view.Ordered) (task : Word) : (view.remove task).Ordered where
  sorted futex := (ordered.sorted futex).filter _
  single other left right inLeft inRight :=
    ordered.single other left right (waits_remove.mp inLeft).1 (waits_remove.mp inRight).1
  listed other futex waits := ordered.listed other futex (waits_remove.mp waits).1
  aligned := ordered.aligned

theorem Ordered.enqueue (ordered : view.Ordered) (free : ∀ futex, ¬view.Waits task futex)
    (listed : task ∈ view.tasks) (queue : Word) : (view.enqueue queue task).Ordered where
  sorted futex := by
    rw [waiters_enqueue]
    split
    · exact insertByUrgency_sorted (ordered.sorted queue)
    · exact ordered.sorted futex
  single other left right inLeft inRight := by
    rcases waits_enqueue.mp inLeft with ⟨rfl, rfl⟩ | oldLeft
    · rcases waits_enqueue.mp inRight with ⟨rfl, _⟩ | oldRight
      · rfl
      · exact (free right oldRight).elim
    · rcases waits_enqueue.mp inRight with ⟨rfl, rfl⟩ | oldRight
      · exact (free left oldLeft).elim
      · exact ordered.single other left right oldLeft oldRight
  listed other futex waits := by
    rcases waits_enqueue.mp waits with ⟨_, rfl⟩ | old
    · exact listed
    · exact ordered.listed other futex old
  aligned := ordered.aligned

theorem Ordered.reprioritize (ordered : view.Ordered) (task : Word) (priority : Nat) :
    (view.reprioritize task priority).Ordered where
  sorted futex := by
    have unchanged : ∀ tasks : List Word, task ∉ tasks →
        tasks.Pairwise (fun left right => view.current left ≤ view.current right) →
        tasks.Pairwise fun left right =>
          Function.update view.current task priority left ≤
            Function.update view.current task priority right := by
      intro tasks absent sorted
      refine sorted.imp_of_mem fun {left right} inLeft inRight less => ?_
      rw [Function.update_of_ne (ne_of_mem_of_not_mem inLeft absent),
        Function.update_of_ne (ne_of_mem_of_not_mem inRight absent)]
      exact less
    simp only [View.reprioritize]
    split
    · exact insertByUrgency_sorted (unchanged _ (by simp) ((ordered.sorted futex).filter _))
    · rename_i absent
      exact unchanged _ absent (ordered.sorted futex)
  single other left right inLeft inRight :=
    ordered.single other left right (waits_reprioritize.mp inLeft) (waits_reprioritize.mp inRight)
  listed other futex waits := ordered.listed other futex (waits_reprioritize.mp waits)
  aligned := ordered.aligned

theorem Ordered.setValue (ordered : view.Ordered) (futex value : Word) :
    (view.setValue futex value).Ordered := ordered.congr rfl rfl rfl

theorem Ordered.addOwned (ordered : view.Ordered) (futex task : Word) :
    (view.addOwned futex task).Ordered := ordered.congr rfl rfl rfl

theorem Ordered.linkOwned (ordered : view.Ordered) (futex owner : Word) :
    (view.linkOwned futex owner).Ordered := ordered.congr rfl rfl rfl

theorem Ordered.boost (ordered : view.Ordered) (futex owner : Word) :
    (view.boost futex owner).Ordered := by
  have linked := ordered.linkOwned futex owner
  simp only [View.boost]
  split
  · exact linked.reprioritize owner _
  · exact linked

theorem Ordered.wait (ordered : view.Ordered) (free : ∀ futex, ¬view.Waits task futex)
    (listed : task ∈ view.tasks) (futex value : Word) : (view.wait task futex value).Ordered := by
  have waiting := (ordered.setValue futex value).enqueue free listed futex
  simp only [View.wait]
  split
  · exact waiting.boost futex _
  · exact waiting

theorem Ordered.restore (ordered : view.Ordered) {futex : Word} {next : View}
    (done : view.restore futex = some next) : next.Ordered := by
  simp only [View.restore] at done
  split at done
  · obtain ⟨owned, _, rfl⟩ := Option.map_eq_some_iff.mp done
    have unlinked : (view.unlinkOwned futex).Ordered := ordered.congr rfl rfl rfl
    exact unlinked.reprioritize _ _
  · obtain rfl := Option.some_inj.mp done
    exact ordered

theorem Ordered.trackOwner (ordered : view.Ordered) (futex task : Word) :
    (view.trackOwner futex task).Ordered := ordered.congr rfl rfl rfl

theorem Ordered.adopt (ordered : view.Ordered) (futex task : Word) :
    (view.adopt futex task).Ordered := by
  rw [View.adopt]
  split
  · exact (ordered.addOwned futex task).reprioritize task _
  · exact ordered

theorem Ordered.wakeWaiters (ordered : view.Ordered) (futex : Word) (all : Bool) (fuel : Nat) :
    (View.wakeWaiters futex all fuel view).Ordered := by
  induction fuel generalizing view with
  | zero => exact ordered
  | succ fuel ih =>
      rw [View.wakeWaiters]
      split
      · exact ordered
      · rename_i task rest _
        have woken := ((ordered.remove task).trackOwner futex task).adopt futex task
        simp only
        split
        · exact woken
        · exact ih woken

theorem Ordered.trackContention (ordered : view.Ordered) (futex : Word) :
    (view.trackContention futex).Ordered := ordered.congr rfl rfl rfl

theorem Ordered.wake (ordered : view.Ordered) {futex : Word} {all : Bool} {next : View}
    (done : view.wake futex all = some next) : next.Ordered := by
  obtain ⟨restored, first, rfl⟩ := Option.map_eq_some_iff.mp done
  exact ((ordered.restore first).wakeWaiters futex all _).trackContention futex

theorem Ordered.create (ordered : view.Ordered) (fresh : ∀ futex, ¬view.Waits task futex)
    (aligned : task ≠ 0 ∧ Untagged task) (priority : Nat) : (view.create task priority).Ordered where
  sorted futex := by
    refine (ordered.sorted futex).imp_of_mem fun {left right} inLeft inRight less => ?_
    have isOld : ∀ other ∈ view.waiters futex, other ≠ task := by
      rintro other member rfl
      exact fresh futex member
    simp only [View.create]
    rw [Function.update_of_ne (isOld left inLeft), Function.update_of_ne (isOld right inRight)]
    exact less
  single := ordered.single
  listed other futex waits := mem_insertEntry.mpr (Or.inr (ordered.listed other futex waits))
  aligned other member := by
    rcases mem_insertEntry.mp member with rfl | old
    · exact aligned
    · exact ordered.aligned other old

theorem Ordered.exit (ordered : view.Ordered) (task : Word) : (view.exit task).Ordered where
  sorted := (ordered.remove task).sorted
  single := (ordered.remove task).single
  listed other futex waits := by
    obtain ⟨old, different⟩ := waits_remove.mp waits
    exact List.mem_filter.mpr ⟨ordered.listed other futex old, by simpa using different⟩
  aligned other member := ordered.aligned other (List.mem_filter.mp member).1

theorem Ordered.perform (ordered : view.Ordered) {event : Event} (enabled : view.Enabled event)
    {next : View} (done : view.perform event = some next) : next.Ordered := by
  cases event with
  | quiet =>
      obtain rfl := Option.some_inj.mp done
      exact ordered
  | create task priority =>
      obtain rfl := Option.some_inj.mp done
      exact ordered.create enabled.2.1 enabled.2.2 priority
  | exit task =>
      obtain rfl := Option.some_inj.mp done
      exact ordered.exit task
  | depart task =>
      obtain rfl := Option.some_inj.mp done
      exact ordered.remove task
  | setPriority task priority =>
      obtain rfl := Option.some_inj.mp done
      have changed : View.Ordered
          { view with base := Function.update view.base task priority } := ordered.congr rfl rfl rfl
      exact changed.reprioritize task priority
  | wait task futex expected =>
      obtain rfl := Option.some_inj.mp done
      exact ordered.wait enabled.2.1 enabled.1 futex _
  | wake futex all => exact ordered.wake done
  | store address value =>
      obtain rfl := Option.some_inj.mp done
      exact ordered.congr rfl rfl rfl
  | initFutex futex value flags =>
      obtain rfl := Option.some_inj.mp done
      exact ordered.congr rfl rfl rfl

theorem ordered_initial {view : View} (begins : contention.initial view) : view.Ordered := by
  obtain ⟨memory, rfl⟩ := begins
  refine ⟨fun _ => List.Pairwise.nil, ?_, ?_, ?_⟩
  · intro task left right waits
    cases waits
  · intro task futex waits
    cases waits
  · intro task member
    cases member

theorem Ordered.highest_le (ordered : view.Ordered) (waits : view.Waits task futex) :
    view.highest futex ≤ view.current task := by
  have sorted := ordered.sorted futex
  have member : task ∈ view.waiters futex := waits
  rw [highest]
  cases queue : view.waiters futex with
  | nil =>
      rw [queue] at member
      cases member
  | cons first rest =>
      rw [queue] at sorted member
      simp only
      rcases List.mem_cons.mp member with rfl | later
      · exact Nat.le_refl _
      · exact (List.pairwise_cons.mp sorted).1 task later

theorem exists_highest (contended : view.waiters futex ≠ []) :
    ∃ task, view.Waits task futex ∧ view.highest futex = view.current task := by
  cases queue : view.waiters futex with
  | nil => exact (contended queue).elim
  | cons first rest => exact ⟨first, by simp [Waits, queue], by simp [highest, queue]⟩

end View

end PicoToolkit
