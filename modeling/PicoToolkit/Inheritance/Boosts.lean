import PicoToolkit.Futex.Wakes
import PicoToolkit.Inheritance.Lists

/-!
When an inherited priority ends: with the wake of the futex, but not with a wait for it that ends in
another way.
-/

namespace PicoToolkit

open Ring Tag Transition

theorem le_foldl_min {α : Type} {elements : List α} {bound least : Nat} {value : α → Nat}
    (below : least ≤ bound) (all : ∀ element ∈ elements, least ≤ value element) :
    least ≤ elements.foldl (fun highest element => min highest (value element)) bound := by
  induction elements generalizing bound with
  | nil => exact below
  | cons first rest ih =>
      rw [List.foldl_cons]
      refine ih (le_min below (all first List.mem_cons_self)) ?_
      exact fun element member => all element (List.mem_cons_of_mem first member)

namespace View

variable {view next : View} {lists : Word → List Word} {task futex : Word} {all : Bool}

/-- The word of a futex with inheritance that is waited for names the task. -/
def Inherits (view : View) (task : Word) : Prop :=
  ∃ futex waiter, (view.futex futex).inherits ∧ view.owner futex = task ∧ view.Waits waiter futex

def Unboosted (view : View) : Prop :=
  ∀ task ∈ view.tasks, ¬view.Inherits task → view.current task = view.base task

/-- The owner of a futex is at its base priority, or another task waits for one of its futexes. -/
def StaysContended (view : View) (task futex : Word) : Prop :=
  view.current (view.owner futex) = view.base (view.owner futex) ∨
    ∃ other ∈ schedListEntries view.owned (view.owner futex), ∃ waiter ∈ view.waiters other, waiter ≠ task

/-- A wait for the futex that ends without a wake was not the only cause of a boost. -/
def KeepsCause (view : View) (futex : Word) : Event → Prop
  | .depart task => view.Waits task futex → view.owner futex ∈ view.tasks →
      view.StaysContended task futex
  | .exit task => view.Waits task futex → view.owner futex ∈ view.tasks →
      view.owner futex ≠ task → view.StaysContended task futex
  | _ => True

/-- The futex stays in the list of its owner, and does not lose its last waiter without a wake. -/
def Sustains (view : View) (futex : Word) (event : Event) : Prop :=
  (schedListIsLinked view.owned (.node futex) → view.Spares futex event) ∧ view.KeepsCause futex event

/-- What keeps a boost from outlasting its cause. -/
def EndsBoosts (view : View) (event : Event) : Prop :=
  view.Admits event ∧ ∀ futex, (view.futex futex).inherits → view.Sustains futex event

theorem EndsBoosts.respects {event : Event} (ends : view.EndsBoosts event) : view.Respects event :=
  ⟨ends.1, fun futex linked => (ends.2 futex linked.1).1 linked.2⟩

instance (view : View) (task futex : Word) : Decidable (view.StaysContended task futex) :=
  inferInstanceAs (Decidable (_ ∨ _))

instance (view : View) (futex : Word) : (event : Event) → Decidable (view.KeepsCause futex event)
  | .depart _ => inferInstanceAs (Decidable (_ → _ → _))
  | .exit _ => inferInstanceAs (Decidable (_ → _ → _ → _))
  | .quiet | .create _ _ | .setPriority _ _ | .wait _ _ _ | .wake _ _ | .store _ _
  | .initFutex _ _ _ => instDecidableTrue

instance (view : View) (futex : Word) (event : Event) : Decidable (view.Sustains futex event) :=
  inferInstanceAs (Decidable (_ ∧ _))

theorem current_wait {value : Word} {other : Word} : (view.wait task futex value).current other =
    if (view.futex futex).inherits ∧ other = untag value then
      min (view.current other) ((view.enqueue futex task).highest futex)
    else view.current other := by
  have boosted : ∀ (view : View) (owner : Word), (view.boost futex owner).current other =
      if other = owner then min (view.current other) (view.highest futex) else view.current other := by
    intro view owner
    have highest : (view.linkOwned futex owner).highest futex = view.highest futex := rfl
    have current : (view.linkOwned futex owner).current = view.current := rfl
    simp only [boost, highest, current]
    split
    · rename_i less
      rw [current_reprioritize]
      split
      · rename_i same
        rw [same, Nat.min_eq_right (Nat.le_of_lt less)]
      · rfl
    · rename_i notLess
      split
      · rename_i same
        rw [same, Nat.min_eq_left (Nat.le_of_not_lt notLess)]
        rfl
      · rfl
  simp only [wait]
  split
  · rename_i inherits
    refine (boosted _ _).trans ?_
    by_cases same : other = untag value
    · rw [if_pos same, if_pos ⟨inherits, same⟩]
      rfl
    · rw [if_neg same, if_neg fun both => same both.2]
      rfl
  · rename_i plain
    rw [if_neg fun both => plain both.1]
    rfl

namespace Unboosted

/-- A step that keeps who waits for each futex with inheritance, and whose it is. -/
theorem keeps (unboosted : view.Unboosted)
    (keeps : ∀ futex waiter, (view.futex futex).inherits → view.Waits waiter futex →
      next.futex futex = view.futex futex ∧ next.owner futex = view.owner futex ∧
        next.Waits waiter futex)
    (same : ∀ task ∈ next.tasks, ¬next.Inherits task → next.current task = next.base task ∨
      task ∈ view.tasks ∧ next.current task = view.current task ∧ next.base task = view.base task) :
    next.Unboosted := by
  intro task member free
  rcases same task member free with same | ⟨before, current, base⟩
  · exact same
  · rw [current, base]
    refine unboosted task before ?_
    rintro ⟨futex, waiter, inherits, owner, waits⟩
    obtain ⟨entry, names, waits⟩ := keeps futex waiter inherits waits
    exact free ⟨futex, waiter, entry.symm ▸ inherits, names.trans owner, waits⟩

theorem handOver (unboosted : view.Unboosted) (listed : view.Listed lists) (ordered : view.Ordered)
    {receiver : Option Word} (respects : view.Respects (.wake futex all))
    (done : view.wake futex all = some next) (inherits : (view.futex futex).inherits)
    (hands : view.HandsOver futex lists receiver next) : next.Unboosted := by
  intro task member free
  have kept : ∀ other, other ≠ futex → (view.futex other).inherits → view.owner other = task →
      ∀ waiter, ¬view.Waits waiter other := by
    intro other different inheritsOther owner waiter waits
    have linked := listed.linked (listed.contended other waiter inheritsOther waits)
    refine free ⟨other, waiter, hands.entries ▸ inheritsOther, ?_, ?_⟩
    · rw [owner_wake respects done linked different, owner]
    · refine (hands.waits waiter other).mpr ⟨waits, fun receives => different ?_⟩
      exact ordered.single waiter other futex waits (hands.chosen waiter receives)
  rw [hands.tasks] at member
  rw [hands.current, hands.base, if_neg, wakePriority]
  · split
    · rename_i isOwner
      rw [fallback_eq listed.represents, ← isOwner.2]
      refine Nat.le_antisymm (foldl_min_le _ _ _) (le_foldl_min (Nat.le_refl _) ?_)
      intro other inList
      obtain ⟨inList, different⟩ := List.mem_filter.mp inList
      obtain ⟨inheritsOther, owner⟩ := listed.named other task inList
      have nobody : view.waiters other = [] := List.eq_nil_iff_forall_not_mem.mpr
        (kept other (by simpa using different) inheritsOther owner)
      rw [highest, nobody]
      exact listed.valid task member
    · rename_i other
      refine unboosted task member ?_
      rintro ⟨owned, waiter, inheritsOwned, owner, waits⟩
      refine kept owned ?_ inheritsOwned owner waiter waits
      rintro rfl
      exact other ⟨inherits, owner.symm⟩
  · rintro ⟨receives, remain⟩
    obtain ⟨waiter, waits⟩ := List.exists_mem_of_ne_nil _ remain
    exact free ⟨futex, waiter, hands.entries ▸ inherits, hands.owner ordered receives, waits⟩

/-- A waiter that leaves is not the only one, or was no cause of a boost. -/
theorem left (unboosted : view.Unboosted) (listed : view.Listed lists) {owner : Word}
    (member : owner ∈ view.tasks)
    (stays : ∀ futex, (view.futex futex).inherits → view.Waits task futex →
      view.owner futex = owner → view.StaysContended task futex)
    (free : ¬(view.remove task).Inherits owner) : view.current owner = view.base owner := by
  have only : ∀ futex waiter, (view.futex futex).inherits → view.owner futex = owner →
      view.Waits waiter futex → waiter = task := by
    intro futex waiter inherits names waits
    refine Classical.byContradiction fun other => free ⟨futex, waiter, inherits, names, ?_⟩
    exact waits_remove.mpr ⟨waits, other⟩
  by_cases inherits : view.Inherits owner
  · obtain ⟨futex, waiter, inheritsFutex, names, waits⟩ := inherits
    obtain rfl := only futex waiter inheritsFutex names waits
    rcases stays futex inheritsFutex waits names with same | ⟨other, inList, others, waitsOther, differs⟩
    · exact names ▸ same
    · rw [names, schedListEntries_eq listed.represents] at inList
      obtain ⟨inheritsOther, namesOther⟩ := listed.named other owner inList
      exact (differs (only other others inheritsOther namesOther waitsOther)).elim
  · exact unboosted owner member inherits

theorem perform (unboosted : view.Unboosted) (listed : view.Listed lists) (ordered : view.Ordered)
    {event : Event} (enabled : view.Enabled event) (respects : view.Respects event)
    (ends : ∀ futex, (view.futex futex).inherits → view.KeepsCause futex event)
    (done : view.perform event = some next) : next.Unboosted := by
  have linked : ∀ {futex waiter}, (view.futex futex).inherits → view.Waits waiter futex →
      view.Linked futex :=
    fun inherits waits => listed.linked (listed.contended _ _ inherits waits)
  cases event with
  | quiet =>
      obtain rfl := Option.some_inj.mp done
      exact unboosted
  | create task priority =>
      obtain rfl := Option.some_inj.mp done
      refine unboosted.keeps (fun _ _ _ waits => ⟨rfl, rfl, waits⟩) fun other member _ => ?_
      by_cases same : other = task
      · refine Or.inl ?_
        rw [same]
        exact (Function.update_self ..).trans (Function.update_self task priority view.base).symm
      · refine Or.inr ⟨(mem_insertEntry.mp member).resolve_left same, ?_, ?_⟩
        · exact Function.update_of_ne same _ _
        · exact Function.update_of_ne same _ _
  | exit task =>
      obtain rfl := Option.some_inj.mp done
      intro owner member free
      obtain ⟨member, other⟩ := List.mem_filter.mp member
      refine unboosted.left listed member (fun futex inherits waits names => ?_) free
      exact ends futex inherits waits (names ▸ member) (names.symm ▸ by simpa using other)
  | depart task =>
      obtain rfl := Option.some_inj.mp done
      intro owner member free
      refine unboosted.left listed member (fun futex inherits waits names => ?_) free
      exact ends futex inherits waits (names ▸ member)
  | setPriority task priority =>
      obtain rfl := Option.some_inj.mp done
      refine unboosted.keeps (fun _ _ _ waits => ⟨rfl, rfl, waits_reprioritize.mpr waits⟩) ?_
      intro other member _
      by_cases same : other = task
      · refine Or.inl ?_
        rw [same]
        exact (Function.update_self ..).trans (Function.update_self task priority view.base).symm
      · refine Or.inr ⟨member, ?_, ?_⟩
        · exact Function.update_of_ne same _ _
        · exact Function.update_of_ne same _ _
  | wait task futex expected =>
      obtain rfl := Option.some_inj.mp done
      have names := untag_waitValue enabled.2.2
      refine unboosted.keeps (fun other waiter _ waits => ⟨congrFun futex_wait other,
        owner_wait enabled.2.2 task other, waits_wait.mpr (Or.inr waits)⟩) fun other member free => ?_
      refine Or.inr ⟨base_wait.2 ▸ member, ?_, congrFun base_wait.1 other⟩
      rw [current_wait, if_neg]
      rintro ⟨inherits, rfl⟩
      refine free ⟨futex, task, ?_, ?_, waits_wait.mpr (Or.inl ⟨rfl, rfl⟩)⟩
      · rw [futex_wait]
        exact inherits
      · rw [owner_wait enabled.2.2, names]
  | wake futex all =>
      by_cases inherits : (view.futex futex).inherits
      · obtain ⟨receiver, hands⟩ := handsOver_of_wake listed.represents inherits done
        exact unboosted.handOver listed ordered respects done inherits hands
      · obtain ⟨woken, wakes⟩ := exists_wakes done
        have plain := plain_wake (Bool.eq_false_of_not_eq_true inherits) respects done
        refine unboosted.keeps (fun other waiter inheritsOther waits => ?_) fun other member _ =>
          Or.inr ⟨wakes.tasks ▸ member, congrFun plain.1 other, congrFun (base_wake done) other⟩
        have different : other ≠ futex := fun same => inherits (same ▸ inheritsOther)
        refine ⟨congrFun wakes.entries other,
          owner_wake respects done (linked inheritsOther waits) different,
          (wakes.waits waiter other).mpr ⟨waits, fun chosen => different ?_⟩⟩
        exact ordered.single waiter other futex waits (wakes.waited waiter chosen)
  | store address value =>
      obtain rfl := Option.some_inj.mp done
      exact unboosted.keeps
        (fun futex waiter inherits waits => ⟨rfl, owner_store respects (linked inherits waits), waits⟩)
        fun task member _ => Or.inr ⟨member, rfl, rfl⟩
  | initFutex futex value flags =>
      obtain rfl := Option.some_inj.mp done
      refine unboosted.keeps (fun other waiter inherits waits => ?_)
        fun task member _ => Or.inr ⟨member, rfl, rfl⟩
      obtain ⟨entry, owner⟩ := owner_initFutex respects (linked inherits waits)
      exact ⟨entry, owner, waits⟩

end Unboosted

end View

/-- A task that owns no contended futex with inheritance has its base priority. -/
def BoostsEnd {cores : Nat} (state : State Links cores) : Prop :=
  ∀ task ∈ state.taskList,
    (∀ futex, (state.futex futex).inherits → untag (state.futexValue futex) = task →
      state.queue (.waiters futex) = []) →
    (state.task task).currentPriority = (state.task task).basePriority

theorem boostsEnd_of_guarded {cores : Nat} [NeZero cores] {state : State Links cores}
    (reached : (scheduler cores).Guarded
      (fun state action => state.view.EndsBoosts (event state action)) state) : BoostsEnd state := by
  have unboosted : state.view.Unboosted := by
    refine invariant_of_respects reached ?_ ?_ ?_
    · exact fun view event ends => ends.respects
    · rintro view ⟨memory, rfl⟩ task member
      cases member
    · intro view event next lists unboosted ordered listed enabled ends done
      exact unboosted.perform listed ordered enabled ends.respects
        (fun futex inherits => (ends.2 futex inherits).2) done
  intro task member free
  refine unboosted task member ?_
  rintro ⟨futex, waiter, inherits, owner, waits⟩
  have nobody : state.view.waiters futex = [] := free futex inherits owner
  have waiting : waiter ∈ state.view.waiters futex := waits
  rw [nobody] at waiting
  cases waiting

/-- The less urgent of two waiters is resumed, then the owner wakes the other one. -/
def lastWaiterWoken : List (Action 1) :=
  twoWaiters ++ [.resume 0 0x2000] ++ switchPass ++ [.futexWake 0 0x100 false]

theorem boostsEnd_of_guarded_woken : ∃ state : State Links 1,
    (scheduler 1).Guarded (fun state action => state.view.EndsBoosts (event state action)) state ∧
      BoostsEnd state ∧ (state.task 0x1000).currentPriority = 30 := by
  obtain ⟨state, reached, same⟩ := System.exists_of_run
    (Looked [0x100] View.Admits View.Sustains) (initial_bootState 1) lastWaiterWoken
    (fun state => (state.task 0x1000).currentPriority = 30) (by decide +kernel)
  have guarded := guarded_of_looked reached
  exact ⟨state, guarded, boostsEnd_of_guarded guarded, same⟩

/-- The waiter is resumed: its task keeps the priority that it inherited. -/
theorem not_boostsEnd :
    ¬∀ state : State Links 1, (scheduler 1).Reachable state → BoostsEnd state := by
  intro ends
  obtain ⟨state, reached, listed, idle, stays⟩ := System.exists_of_run (fun _ _ => True)
    (initial_bootState 1) (oneWaiter ++ [.resume 0 0x2000])
    (fun state => 0x1000 ∈ state.taskList ∧
      (∀ task ∈ state.taskList, (state.task task).state ≠ .blocked) ∧
      (state.task 0x1000).currentPriority ≠ (state.task 0x1000).basePriority) (by decide)
  refine stays (ends state reached 0x1000 listed fun futex _ _ => ?_)
  refine List.eq_nil_iff_forall_not_mem.mpr fun task waits => ?_
  exact idle task ((ordered_of_reachable reached).listed task futex waits)
    (blocked_of_waits reached waits)

end PicoToolkit
