import PicoToolkit.Inheritance.Boosts

/-!
Priority inversion: no task that owns a futex with inheritance is less urgent than one that waits for it.
A boost reaches the owner alone, not the task for which the owner waits in turn.
-/

namespace PicoToolkit

open Ring Tag Transition

theorem foldl_min_le_mem {α : Type} {elements : List α} {bound : Nat} {value : α → Nat} {element : α}
    (member : element ∈ elements) :
    elements.foldl (fun least element => min least (value element)) bound ≤ value element := by
  induction elements generalizing bound with
  | nil => cases member
  | cons first rest ih =>
      rw [List.foldl_cons]
      rcases List.mem_cons.mp member with rfl | later
      · exact Nat.le_trans (foldl_min_le _ _ _) (Nat.min_le_right ..)
      · exact ih later

namespace View

variable {view next : View} {lists : Word → List Word} {task futex : Word} {all : Bool}

/-- The owner of a futex with inheritance is as urgent as each task that waits for it. -/
def Uninverted (view : View) : Prop :=
  ∀ futex waiter, (view.futex futex).inherits → view.Waits waiter futex →
    view.owner futex ∈ view.tasks → view.current (view.owner futex) ≤ view.current waiter

/-- The owner of another futex is not left less urgent than the owner of this one, who waits for the other:
neither by the boost that a wait causes nor by the fall back of a wake. -/
def KeepsChain (view : View) (futex other : Word) (priority : Nat) : Prop :=
  (view.futex futex).inherits → view.Waits (view.owner futex) other → view.owner other ∈ view.tasks →
    view.owner other ≠ view.owner futex → view.current (view.owner other) ≤ priority

/-- A waiter remains that is as urgent as each waiter of another futex that the receiver owns: the receiver
gets its priority. -/
def KeepsReceiver (view : View) (futex other : Word) : Prop :=
  ∀ left ∈ view.waiters other, ∃ waiter ∈ view.waiters futex, waiter ≠ view.owner other ∧
    view.wakePriority futex waiter ≤ view.wakePriority futex left

/-- A step keeps the owner of the other futex as urgent as its waiters. -/
def KeepsOrder (view : View) (other : Word) : Event → Prop
  | .wait task futex _ => view.current (view.owner futex) ≤ view.current task ∨
      view.KeepsChain futex other (view.current task)
  | .setPriority task priority =>
      (view.Waits task other → view.owner other ∈ view.tasks → view.owner other ≠ task →
        view.current (view.owner other) ≤ priority) ∧
      (view.owner other = task → ∀ waiter ∈ view.waiters other, waiter ≠ task →
        priority ≤ view.current waiter)
  | .wake futex _ => (view.futex futex).inherits → other ≠ futex →
      if view.served futex = some (view.owner other) ∧
          ∃ waiter ∈ view.waiters futex, waiter ≠ view.owner other then
        view.KeepsReceiver futex other
      else view.KeepsChain futex other (view.base (view.owner futex))
  | _ => True

/-- The futex stays in the list of its owner, which stays as urgent as its waiters. -/
def KeepsUrgent (view : View) (futex : Word) (event : Event) : Prop :=
  (schedListIsLinked view.owned (.node futex) → view.Spares futex event) ∧ view.KeepsOrder futex event

/-- What keeps each owner as urgent as the tasks that wait for its futexes. -/
def NeverInverts (view : View) (event : Event) : Prop :=
  view.Admits event ∧ ∀ futex, (view.futex futex).inherits → view.KeepsUrgent futex event

theorem NeverInverts.respects {event : Event} (never : view.NeverInverts event) :
    view.Respects event :=
  ⟨never.1, fun futex linked => (never.2 futex linked.1).1 linked.2⟩

instance (view : View) (futex other : Word) (priority : Nat) :
    Decidable (view.KeepsChain futex other priority) :=
  inferInstanceAs (Decidable (_ → _ → _ → _ → _))

instance (view : View) (futex other : Word) : Decidable (view.KeepsReceiver futex other) := by
  unfold KeepsReceiver
  infer_instance

instance (view : View) (futex : Word) : (event : Event) → Decidable (view.KeepsOrder futex event)
  | .wait _ _ _ => inferInstanceAs (Decidable (_ ∨ _))
  | .setPriority _ _ =>
      inferInstanceAs (Decidable ((_ → _ → _ → _) ∧ (_ → ∀ waiter ∈ view.waiters futex, _ → _)))
  | .wake _ _ => inferInstanceAs (Decidable (_ → _ → if _ ∧ _ then _ else _))
  | .quiet | .create _ _ | .exit _ | .depart _ | .store _ _ | .initFutex _ _ _ => instDecidableTrue

instance (view : View) (futex : Word) (event : Event) : Decidable (view.KeepsUrgent futex event) :=
  inferInstanceAs (Decidable (_ ∧ _))

namespace Uninverted

/-- A step that changes neither priorities nor owners, and lets nobody join a queue. -/
theorem keeps (uninverted : view.Uninverted) (current : next.current = view.current)
    (tasks : ∀ task ∈ next.tasks, task ∈ view.tasks)
    (kept : ∀ futex waiter, (next.futex futex).inherits → next.Waits waiter futex →
      (view.futex futex).inherits ∧ view.Waits waiter futex ∧ next.owner futex = view.owner futex) :
    next.Uninverted := by
  intro futex waiter inherits waits owned
  obtain ⟨inherits, waits, owner⟩ := kept futex waiter inherits waits
  rw [owner] at owned ⊢
  rw [current]
  exact uninverted futex waiter inherits waits (tasks _ owned)

/-- The owner of another futex is no less urgent than its waiters once the owner of this one has fallen
back. -/
theorem wakePriority_le (uninverted : view.Uninverted) (listed : view.Listed lists)
    (ordered : view.Ordered) {other waiter : Word} (inherits : (view.futex futex).inherits)
    (inheritsOther : (view.futex other).inherits) (different : other ≠ futex)
    (waits : view.Waits waiter other) (owned : view.owner other ∈ view.tasks)
    (chain : view.KeepsChain futex other (view.base (view.owner futex))) :
    view.wakePriority futex (view.owner other) ≤ view.wakePriority futex waiter := by
  have before := uninverted other waiter inheritsOther waits owned
  by_cases isOwner : view.owner other = view.owner futex
  · by_cases same : waiter = view.owner futex
    · rw [isOwner, same]
    · rw [wakePriority, if_pos ⟨inherits, isOwner⟩, wakePriority, if_neg fun both => same both.2,
        fallback_eq listed.represents]
      have member : other ∈ (lists (view.owner futex)).filter (· ≠ futex) := by
        refine List.mem_filter.mpr ⟨?_, by simpa using different⟩
        rw [← isOwner]
        exact listed.contended other waiter inheritsOther waits
      exact Nat.le_trans (foldl_min_le_mem member) (ordered.highest_le waits)
  · rw [wakePriority, if_neg fun both => isOwner both.2, wakePriority]
    split
    · rename_i isWaiter
      obtain ⟨_, rfl⟩ := isWaiter
      have least := chain inherits waits owned isOwner
      have alive := ordered.listed _ other waits
      rw [fallback_eq listed.represents]
      refine le_foldl_min least fun held inList => ?_
      obtain ⟨inheritsHeld, names⟩ := listed.named held _ (List.mem_filter.mp inList).1
      by_cases contended : view.waiters held = []
      · rw [highest, contended]
        exact Nat.le_trans least (listed.valid _ alive)
      · obtain ⟨first, waitsHeld, isFirst⟩ := exists_highest contended
        have further := uninverted held first inheritsHeld waitsHeld (names.symm ▸ alive)
        rw [names] at further
        rw [isFirst]
        exact Nat.le_trans before further
    · exact before

theorem handOver (uninverted : view.Uninverted) (listed : view.Listed lists) (ordered : view.Ordered)
    {receiver : Option Word} (respects : view.Respects (.wake futex all))
    (keeps : ∀ other, (view.futex other).inherits → view.KeepsOrder other (.wake futex all))
    (done : view.wake futex all = some next) (orderedNext : next.Ordered)
    (inherits : (view.futex futex).inherits)
    (hands : view.HandsOver futex lists receiver next) : next.Uninverted := by
  intro other waiter inheritsOther waits owned
  rw [hands.entries] at inheritsOther
  obtain ⟨waited, notReceiver⟩ := (hands.waits waiter other).mp waits
  have waiterCurrent : next.current waiter = view.wakePriority futex waiter :=
    (hands.current waiter).trans (if_neg fun both => notReceiver both.1)
  by_cases same : other = futex
  · subst same
    cases isReceiver : receiver with
    | none => exact (hands.found isReceiver waiter waited).elim
    | some first =>
        have remain : next.waiters other ≠ [] := List.ne_nil_of_mem waits
        rw [hands.owner ordered isReceiver, hands.current, if_pos ⟨isReceiver, remain⟩]
        exact orderedNext.highest_le waits
  · have linked := listed.linked (listed.contended other waiter inheritsOther waited)
    rw [owner_wake respects done linked same, hands.tasks] at owned
    rw [owner_wake respects done linked same, waiterCurrent, hands.current]
    have remains : (receiver = some (view.owner other) ∧ next.waiters futex ≠ []) ↔
        view.served futex = some (view.owner other) ∧
          ∃ waiter ∈ view.waiters futex, waiter ≠ view.owner other := by
      rw [← hands.served]
      refine and_congr_right fun isReceiver => ⟨fun remain => ?_, fun ⟨left, waits, differs⟩ => ?_⟩
      · obtain ⟨left, waits⟩ := List.exists_mem_of_ne_nil _ remain
        obtain ⟨waited, notReceiver⟩ := (hands.waits left futex).mp waits
        exact ⟨left, waited, fun same => notReceiver (same ▸ isReceiver)⟩
      · refine List.ne_nil_of_mem ((hands.waits left futex).mpr ⟨waits, fun receives => differs ?_⟩)
        exact Option.some_inj.mp (receives.symm.trans isReceiver)
    have allowed := keeps other inheritsOther inherits same
    simp only [← remains] at allowed
    split
    · rename_i adopts
      rw [if_pos adopts] at allowed
      obtain ⟨second, waitsSecond, differs, urgent⟩ := allowed waiter waited
      have notSecond : receiver ≠ some second := fun isSecond =>
        differs (Option.some_inj.mp (isSecond.symm.trans adopts.1))
      have bound := orderedNext.highest_le ((hands.waits second futex).mpr ⟨waitsSecond, notSecond⟩)
      rw [hands.current second, if_neg fun both => notSecond both.1] at bound
      exact Nat.le_trans bound urgent
    · rename_i stays
      rw [if_neg stays] at allowed
      exact uninverted.wakePriority_le listed ordered inherits inheritsOther same waited owned allowed

/-- A wait boosts the owner, and no task for which the owner waits in turn needs to be boosted. -/
theorem wait (uninverted : view.Uninverted) (ordered : view.Ordered) {expected : Word}
    (enabled : view.Enabled (.wait task futex expected))
    (keeps : ∀ other, (view.futex other).inherits →
      view.KeepsOrder other (.wait task futex expected)) :
    (view.wait task futex (waitValue (view.futex futex) expected)).Uninverted := by
  have names := untag_waitValue enabled.2.2
  intro other waiter inheritsOther waits owned
  rw [futex_wait] at inheritsOther
  rw [owner_wait enabled.2.2] at owned ⊢
  rw [base_wait.2] at owned
  have enqueued : (view.enqueue futex task).Ordered := ordered.enqueue enabled.2.1 enabled.1 futex
  rw [current_wait, current_wait, names]
  by_cases boosts : (view.futex futex).inherits
  · have least : ∀ waiter, (futex = futex ∧ waiter = task) ∨ view.Waits waiter futex →
        (view.enqueue futex task).highest futex ≤ view.current waiter :=
      fun waiter waits => enqueued.highest_le (waits_enqueue.mpr waits)
    by_cases isOwner : view.owner other = view.owner futex
    · rw [isOwner, if_pos ⟨boosts, rfl⟩]
      by_cases same : waiter = view.owner futex
      · rw [if_pos ⟨boosts, same⟩, same]
      · rw [if_neg fun both => same both.2]
        rcases waits_wait.mp waits with ⟨rfl, rfl⟩ | old
        · exact Nat.le_trans (Nat.min_le_right ..) (least waiter (Or.inl ⟨rfl, rfl⟩))
        · have before := uninverted other waiter inheritsOther old owned
          rw [isOwner] at before
          exact Nat.le_trans (Nat.min_le_left ..) before
    · rw [if_neg fun both => isOwner both.2]
      rcases waits_wait.mp waits with ⟨rfl, rfl⟩ | old
      · exact (isOwner rfl).elim
      · have before := uninverted other waiter inheritsOther old owned
        split
        · rename_i isWaiter
          obtain ⟨_, rfl⟩ := isWaiter
          refine le_min before ?_
          have alive := ordered.listed _ other old
          have joined : (view.enqueue futex task).Waits task futex :=
            waits_enqueue.mpr (Or.inl ⟨rfl, rfl⟩)
          obtain ⟨first, waitsFirst, isFirst⟩ := exists_highest (List.ne_nil_of_mem joined)
          rw [isFirst]
          rcases waits_enqueue.mp waitsFirst with ⟨_, rfl⟩ | waitsOld
          · rcases keeps other inheritsOther with urgent | chain
            · exact Nat.le_trans before urgent
            · exact chain boosts old owned isOwner
          · exact Nat.le_trans before (uninverted futex first boosts waitsOld alive)
        · exact before
  · rw [if_neg fun both => boosts both.1, if_neg fun both => boosts both.1]
    rcases waits_wait.mp waits with ⟨rfl, _⟩ | old
    · exact (boosts inheritsOther).elim
    · exact uninverted other waiter inheritsOther old owned

theorem perform (uninverted : view.Uninverted) (listed : view.Listed lists) (ordered : view.Ordered)
    {event : Event} (enabled : view.Enabled event) (respects : view.Respects event)
    (keeps : ∀ futex, (view.futex futex).inherits → view.KeepsOrder futex event)
    (done : view.perform event = some next) : next.Uninverted := by
  have linked : ∀ {futex waiter}, (view.futex futex).inherits → view.Waits waiter futex →
      view.Linked futex :=
    fun inherits waits => listed.linked (listed.contended _ _ inherits waits)
  cases event with
  | quiet =>
      obtain rfl := Option.some_inj.mp done
      exact uninverted
  | create task priority =>
      obtain rfl := Option.some_inj.mp done
      intro futex waiter inherits waits owned
      have member := listed.contended futex waiter inherits waits
      have other : view.owner futex ≠ task := by
        intro same
        have none := respects.1.1
        rw [schedListEntries_eq listed.represents, ← same] at none
        rw [none] at member
        cases member
      have different : waiter ≠ task := by
        rintro rfl
        exact enabled.2.1 futex waits
      have before := uninverted futex waiter inherits waits
        ((mem_insertEntry.mp owned).resolve_left other)
      refine le_trans (Function.update_of_ne other _ _).le (before.trans ?_)
      exact (Function.update_of_ne different _ _).ge
  | exit task =>
      obtain rfl := Option.some_inj.mp done
      refine uninverted.keeps rfl (fun other member => (List.mem_filter.mp member).1) ?_
      exact fun futex waiter inherits waits => ⟨inherits, (waits_remove.mp waits).1, rfl⟩
  | depart task =>
      obtain rfl := Option.some_inj.mp done
      refine uninverted.keeps rfl (fun other => id) ?_
      exact fun futex waiter inherits waits => ⟨inherits, (waits_remove.mp waits).1, rfl⟩
  | setPriority task priority =>
      obtain rfl := Option.some_inj.mp done
      intro futex waiter inherits waiting owned
      have waits : view.Waits waiter futex := waits_reprioritize.mp waiting
      obtain ⟨above, below⟩ := keeps futex inherits
      change Function.update view.current task priority (view.owner futex) ≤
        Function.update view.current task priority waiter
      by_cases isWaiter : waiter = task
      · subst isWaiter
        rw [Function.update_self]
        by_cases isOwner : view.owner futex = waiter
        · rw [isOwner, Function.update_self]
        · rw [Function.update_of_ne isOwner]
          exact above waits owned isOwner
      · rw [Function.update_of_ne isWaiter]
        by_cases isOwner : view.owner futex = task
        · rw [isOwner, Function.update_self]
          exact below isOwner waiter waits isWaiter
        · rw [Function.update_of_ne isOwner]
          exact uninverted futex waiter inherits waits owned
  | wait task futex expected =>
      obtain rfl := Option.some_inj.mp done
      exact uninverted.wait ordered enabled keeps
  | wake futex all =>
      by_cases inherits : (view.futex futex).inherits
      · obtain ⟨receiver, hands⟩ := handsOver_of_wake listed.represents inherits done
        exact uninverted.handOver listed ordered respects keeps done (ordered.wake done) inherits hands
      · obtain ⟨woken, wakes⟩ := exists_wakes done
        have plain := plain_wake (Bool.eq_false_of_not_eq_true inherits) respects done
        refine uninverted.keeps plain.1 (fun other member => wakes.tasks ▸ member) ?_
        intro other waiter inheritsOther waits
        rw [wakes.entries] at inheritsOther
        have waited := ((wakes.waits waiter other).mp waits).1
        refine ⟨inheritsOther, waited, owner_wake respects done (linked inheritsOther waited) ?_⟩
        rintro rfl
        exact inherits inheritsOther
  | store address value =>
      obtain rfl := Option.some_inj.mp done
      exact uninverted.keeps rfl (fun _ => id) fun futex waiter inherits waits =>
        ⟨inherits, waits, owner_store respects (linked inherits waits)⟩
  | initFutex futex value flags =>
      obtain rfl := Option.some_inj.mp done
      refine uninverted.keeps rfl (fun _ => id) fun other waiter inherits waits => ?_
      have different : other ≠ futex := by
        rintro rfl
        have empty : view.waiters other = [] := enabled
        have waiting : waiter ∈ view.waiters other := waits
        rw [empty] at waiting
        cases waiting
      have entry : (view.initFutex futex value flags).futex other = view.futex other :=
        Function.update_of_ne different _ _
      rw [entry] at inherits
      exact ⟨inherits, waits, (owner_initFutex respects (linked inherits waits)).2⟩

end Uninverted

end View

/-- A task that owns a futex with inheritance is as urgent as each task in its waiter queue. -/
def NoInversion {cores : Nat} (state : State Links cores) : Prop :=
  ∀ futex, (state.futex futex).inherits → ∀ waiter ∈ state.queue (.waiters futex),
    untag (state.futexValue futex) ∈ state.taskList →
    (state.task (untag (state.futexValue futex))).currentPriority ≤ (state.task waiter).currentPriority

theorem noInversion_of_guarded {cores : Nat} [NeZero cores] {state : State Links cores}
    (reached : (scheduler cores).Guarded
      (fun state action => state.view.NeverInverts (event state action)) state) : NoInversion state := by
  have uninverted : state.view.Uninverted := by
    refine invariant_of_respects reached ?_ ?_ ?_
    · exact fun view event never => never.respects
    · rintro view ⟨memory, rfl⟩ futex waiter _ waits
      cases waits
    · intro view event next lists uninverted ordered listed enabled never done
      exact uninverted.perform listed ordered enabled never.respects
        (fun futex inherits => (never.2 futex inherits).2) done
  exact fun futex inherits waiter waits owned => uninverted futex waiter inherits waits owned

/-- The task at 0x1000 owns a futex for which the one at 0x2000 waits, which owns the futex at 0x200. -/
def ownersChain (priority : Nat) : List (Action 1) :=
  [Action.create 0 0x1000 { flags := schedulerPrimordialTask, priority := 30 },
    .futexInit 0x100 0x104 7, .futexInit 0x200 0x204 7, .store 0x104 0x1000, .store 0x204 0x2000,
    .start 0, .create 0 0x2000 { priority := 20 }] ++ switchPass ++
  [Action.futexWait 0 0x100 0x1000 schedulerWaitForever] ++ switchPass ++
  [Action.create 0 0x3000 { priority := priority }, .yield 0] ++ switchPass ++
  [Action.futexWait 0 0x200 0x2000 schedulerWaitForever] ++ switchPass

theorem noInversion_of_guarded_chain : ∃ state : State Links 1,
    (scheduler 1).Guarded (fun state action => state.view.NeverInverts (event state action)) state ∧
      NoInversion state ∧ state.view.Waits 0x2000 0x100 ∧ state.view.Waits 0x3000 0x200 := by
  obtain ⟨state, reached, waits⟩ := System.exists_of_run
    (Looked [0x100, 0x200] View.Admits View.KeepsUrgent) (initial_bootState 1) (ownersChain 20)
    (fun state => state.view.Waits 0x2000 0x100 ∧ state.view.Waits 0x3000 0x200) (by decide +kernel)
  have guarded := guarded_of_looked reached
  exact ⟨state, guarded, noInversion_of_guarded guarded, waits⟩

/-- An urgent task waits for the futex of a task that waits in turn: only the latter is boosted. -/
theorem not_noInversion :
    ¬∀ state : State Links 1, (scheduler 1).Reachable state → NoInversion state := by
  intro never
  obtain ⟨state, reached, inherits, waits, owned, less⟩ := System.exists_of_run (fun _ _ => True)
    (initial_bootState 1) (ownersChain 5)
    (fun state => (state.futex 0x100).inherits ∧ 0x2000 ∈ state.queue (.waiters 0x100) ∧
      untag (state.futexValue 0x100) ∈ state.taskList ∧
      ¬(state.task (untag (state.futexValue 0x100))).currentPriority ≤
        (state.task 0x2000).currentPriority) (by decide +kernel)
  exact less (never state reached 0x100 inherits 0x2000 waits owned)

end PicoToolkit
