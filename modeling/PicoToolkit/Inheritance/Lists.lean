import PicoToolkit.Futex.Tracked

/-!
The lists of contended futexes: each futex that is waited for is in the list of the task that its word
names.  What a wake hands over.
-/

namespace PicoToolkit

open Ring Tag Transition

namespace View

variable {view next : View} {lists : Word → List Word} {task other futex queue : Word} {all : Bool}

/-- A futex with priority inheritance that is in a list of contended futexes. -/
def Linked (view : View) (futex : Word) : Prop :=
  (view.futex futex).inherits ∧ schedListIsLinked view.owned (.node futex)

/-- A futex in a list keeps its owner, unless it is woken itself. -/
def Spares (view : View) (futex : Word) : Event → Prop
  | .store address value => (view.futex futex).value = address → untag value = view.owner futex
  | .wake other _ => flagSet (view.futex other).flags schedulerFutexOwnerTracking → other ≠ futex →
      (view.futex futex).value ≠ (view.futex other).value
  | _ => True

/-- No list is set up anew while it is in use, the priorities are valid, and a futex with inheritance that
does not track its owner has no waiters to choose from. -/
def Admits (view : View) : Event → Prop
  | .create task priority =>
      schedListEntries view.owned task = [] ∧ priority ≤ schedulerNumTaskPriorities
  | .setPriority _ priority => priority ≤ schedulerNumTaskPriorities
  | .initFutex futex _ _ => schedListIsLinked view.owned (.node futex) = false
  | .wake futex _ => flagSet (view.futex futex).flags schedulerFutexPi →
      ¬flagSet (view.futex futex).flags schedulerFutexOwnerTracking → (view.waiters futex).length ≤ 1
  | _ => True

/-- What the lists rely on. -/
def Respects (view : View) (event : Event) : Prop :=
  view.Admits event ∧
    ∀ futex, view.Linked futex → view.Spares futex event

instance (view : View) (futex : Word) : Decidable (view.Linked futex) :=
  inferInstanceAs (Decidable (_ ∧ _))

instance (view : View) (futex : Word) : (event : Event) → Decidable (view.Spares futex event)
  | .store _ _ | .wake _ _ => inferInstanceAs (Decidable (_ → _))
  | .quiet | .create _ _ | .exit _ | .depart _ | .setPriority _ _ | .wait _ _ _ | .initFutex _ _ _ =>
      instDecidableTrue

instance (view : View) : (event : Event) → Decidable (view.Admits event)
  | .create _ _ => inferInstanceAs (Decidable (_ ∧ _))
  | .setPriority _ priority => inferInstanceAs (Decidable (priority ≤ _))
  | .initFutex _ _ _ => inferInstanceAs (Decidable (_ = false))
  | .wake _ _ => inferInstanceAs (Decidable (_ → _ → _))
  | .quiet | .exit _ | .depart _ | .wait _ _ _ | .store _ _ => instDecidableTrue

/-- Each list holds futexes whose words name its task, among them all that are waited for. -/
structure Listed (view : View) (lists : Word → List Word) : Prop where
  represents : view.owned.Represents lists
  named : ∀ futex task, futex ∈ lists task →
    (view.futex futex).inherits ∧ view.owner futex = task
  contended : ∀ futex task, (view.futex futex).inherits → view.Waits task futex →
    futex ∈ lists (view.owner futex)
  valid : ∀ task ∈ view.tasks, view.base task ≤ schedulerNumTaskPriorities

/-- The waiter that a wake of a futex with inheritance serves; the owner, should it wait for its own futex,
has fallen back by then. -/
def served (view : View) (futex : Word) : Option Word :=
  ((view.reprioritize (view.owner futex) (view.fallback futex)).waiters futex).head?

/-- What a wake of a futex with inheritance does: the most urgent waiter is the receiver, whose priority
becomes that of the most urgent one that remains. -/
structure HandsOver (view : View) (futex : Word) (lists : Word → List Word) (receiver : Option Word)
    (next : View) : Prop where
  tasks : next.tasks = view.tasks
  base : next.base = view.base
  entries : next.futex = view.futex
  waits : ∀ task queue, next.Waits task queue ↔ view.Waits task queue ∧ receiver ≠ some task
  served : receiver = view.served futex
  found : receiver = none → ∀ task, ¬view.Waits task futex
  chosen : ∀ task, receiver = some task → view.Waits task futex
  current : ∀ task, next.current task =
    if receiver = some task ∧ next.waiters futex ≠ [] then next.highest futex
    else view.wakePriority futex task
  owned : next.owned.Represents fun task => (lists task).filter (· ≠ futex) ++
    if receiver = some task ∧ next.waiters futex ≠ [] then [futex] else []
  memory : ∃ value, next.memory = Function.update view.memory (view.futex futex).value value ∧
    untag value = untag (receiver.getD (view.owner futex))

/-- The hand-over to one task. -/
theorem owned_handOver (represents : view.owned.Represents lists) (absent : ∀ list, futex ∉ lists list)
    (inherits : flagSet (view.futex futex).flags schedulerFutexPi) :
    (((view.remove task).trackOwner futex task).adopt futex task).owned.Represents fun list =>
      lists list ++ if task = list ∧
        (((view.remove task).trackOwner futex task).adopt futex task).waiters futex ≠ []
      then [futex] else [] := by
  have waiters := @waiters_handOver view task futex futex
  rw [waiters]
  by_cases none : (view.waiters futex).filter (· ≠ task) = []
  · have same : ((view.remove task).trackOwner futex task).adopt futex task =
        (view.remove task).trackOwner futex task := by
      refine if_neg ?_
      change ¬(_ && !((view.waiters futex).filter (· ≠ task)).isEmpty) = true
      rw [none, List.isEmpty_nil, Bool.not_true, Bool.and_false]
      exact Bool.false_ne_true
    simp only [same, none, ne_eq, not_true_eq_false, and_false, if_false, List.append_nil]
    exact represents
  · have adopted : (((view.remove task).trackOwner futex task).adopt futex task).owned =
        schedListAdd view.owned (.head task) (.node futex) := by
      refine congrArg View.owned (if_pos ?_)
      change (flagSet (view.futex futex).flags schedulerFutexPi &&
        !((view.waiters futex).filter (· ≠ task)).isEmpty) = true
      simp only [inherits, Bool.true_and, Bool.not_eq_true', List.isEmpty_eq_false_iff]
      exact none
    rw [adopted]
    refine cast (congrArg _ (funext fun list => ?_)) (represents_add represents task absent)
    by_cases same : list = task
    · rw [same, Function.update_self, if_pos ⟨rfl, none⟩]
    · rw [Function.update_of_ne same, if_neg fun both => same both.1.symm, List.append_nil]

theorem memory_trackContention : ∃ value,
    (view.trackContention futex).memory =
      Function.update view.memory (view.futex futex).value value ∧
    untag value = view.owner futex := by
  by_cases contention : flagSet (view.futex futex).flags schedulerFutexContentionTracking
  · refine ⟨_, if_pos contention, ?_⟩
    split
    · exact untag_untag _
    · exact untag_tag _
  · refine ⟨view.value futex, (if_neg contention).trans ?_, rfl⟩
    exact (Function.update_eq_self _ _).symm

/-- The owner falls back before a waiter is served. -/
theorem unlinked_of_restore (represents : view.owned.Represents lists)
    (inherits : (view.futex futex).inherits) (done : view.restore futex = some next) :
    (next.owned.Represents fun list => (lists list).filter (· ≠ futex)) ∧
      view.served futex = (next.waiters futex).head? := by
  rw [restore, if_pos inherits] at done
  obtain ⟨owned, walked, rfl⟩ := Option.map_eq_some_iff.mp done
  constructor
  · have removed := represents.unlink futex
    rw [← schedListRemove_eq represents] at removed
    exact removed
  · have entries : schedListEntries (view.unlinkOwned futex).owned (view.owner futex) = owned :=
      Links.walk_of_walk? walked
    rw [served, fallback, entries]
    rfl

theorem handsOver_of_wake (represents : view.owned.Represents lists)
    (inherits : (view.futex futex).inherits) (done : view.wake futex all = some next) :
    ∃ receiver, view.HandsOver futex lists receiver next := by
  obtain ⟨restored, first, rfl⟩ := Option.map_eq_some_iff.mp done
  obtain ⟨pi, tracks⟩ : flagSet (view.futex futex).flags schedulerFutexPi = true ∧
      flagSet (view.futex futex).flags schedulerFutexOwnerTracking = true := by
    simpa [Futex.inherits] using inherits
  have parts := restore_restored first
  have single : (!all || flagSet (restored.futex futex).flags schedulerFutexOwnerTracking) = true := by
    rw [parts.futex, tracks, Bool.or_true]
  obtain ⟨unlinked, served⟩ := unlinked_of_restore represents inherits first
  rw [wakeWaiters_first single]
  cases waiters : restored.waiters futex with
  | nil =>
      obtain ⟨value, memory, owner⟩ := @memory_trackContention restored futex
      have nobody : ∀ task, ¬view.Waits task futex := by
        intro task waits
        have waits := (parts.waits task futex).mpr waits
        rw [Waits, waiters] at waits
        cases waits
      refine ⟨none, parts.tasks, parts.base, parts.futex, ?_, ?_, fun _ => nobody,
        fun _ none => (by cases none), ?_, ?_, value, ?_, ?_⟩
      · exact fun task queue => (parts.waits task queue).trans (by simp)
      · rw [served, waiters, List.head?_nil]
      · intro task
        rw [if_neg fun both => by cases both.1]
        exact parts.current task
      · simp only [reduceCtorEq, false_and, if_false, List.append_nil]
        exact unlinked
      · rw [← parts.futex, ← parts.memory]
        exact memory
      · rw [owner, Option.getD_none, View.owner, View.owner, untag_untag, View.value, View.value,
          parts.futex, parts.memory]
  | cons receiver rest =>
      have head : restored.Waits receiver futex := by simp [Waits, waiters]
      change ∃ other, view.HandsOver futex lists other (trackContention
        (((restored.remove receiver).trackOwner futex receiver).adopt futex receiver) futex)
      obtain ⟨base, entries, tasks⟩ := @handOver_fields restored receiver futex
      have waits : ∀ task queue, (((restored.remove receiver).trackOwner futex receiver).adopt futex
          receiver).Waits task queue ↔ restored.Waits task queue ∧ task ≠ receiver :=
        fun _ _ => waits_handOver
      have current : ∀ task, (((restored.remove receiver).trackOwner futex receiver).adopt futex
          receiver).current task = _ := fun _ => current_handOver
      have memory := @memory_handOver restored receiver futex
      have owned := @owned_handOver restored _ receiver futex unlinked (by simp) (by rw [parts.futex, pi])
      have left := @waiters_handOver restored receiver futex futex
      generalize ((restored.remove receiver).trackOwner futex receiver).adopt futex receiver =
        handed at *
      obtain ⟨value, stored, owner⟩ := @memory_trackContention handed futex
      refine ⟨some receiver, tasks.trans parts.tasks, base.trans parts.base, entries.trans parts.futex,
        ?_, ?_, fun none => (by cases none), ?_, ?_, ?_, value, ?_, ?_⟩
      · intro task queue
        refine (waits task queue).trans (and_congr (parts.waits task queue) ?_)
        rw [ne_comm, Ne, Ne, Option.some_inj]
      · rw [served, waiters, List.head?_cons]
      · rintro task ⟨⟩
        exact (parts.waits receiver futex).mp head
      · intro task
        have before : (restored.remove receiver).waiters futex =
            (restored.waiters futex).filter (· ≠ receiver) := rfl
        have highest : (restored.remove receiver).highest futex = handed.highest futex := by
          cases remain : (restored.waiters futex).filter (· ≠ receiver) with
          | nil => rw [View.highest, View.highest, left, before, remain]
          | cons next others =>
              have member : next ∈ (restored.waiters futex).filter (· ≠ receiver) := by
                rw [remain]
                exact List.mem_cons_self
              have other : next ≠ receiver := by simpa using (List.mem_filter.mp member).2
              rw [View.highest, View.highest, left, before, remain]
              exact ((current next).trans (if_neg fun both => other both.1)).symm
        refine (current task).trans ?_
        rw [parts.futex, pi, parts.current]
        refine ite_congr ?_ (fun _ => highest) fun _ => rfl
        rw [eq_iff_iff, Option.some_inj, eq_comm]
        change _ ↔ receiver = task ∧ handed.waiters futex ≠ []
        rw [left]
        exact and_congr_right fun _ => and_iff_right rfl
      · simp only [Option.some_inj]
        exact owned
      · rw [stored, memory, entries, parts.futex, parts.memory, if_pos tracks, Function.update_idem]
      · rw [owner, Option.getD_some, View.owner, View.value, memory, entries, parts.futex, if_pos tracks,
          Function.update_self]

theorem HandsOver.owner {receiver : Option Word} (hands : view.HandsOver futex lists receiver next)
    (ordered : view.Ordered) (receives : receiver = some task) : next.owner futex = task := by
  obtain ⟨value, memory, same⟩ := hands.memory
  rw [View.owner, View.value, hands.entries, memory, Function.update_self, same, receives]
  exact (ordered.aligned task (ordered.listed task futex (hands.chosen task receives))).2

/-- A wake without inheritance leaves the priorities and the lists alone. -/
theorem plain_wake (plain : (view.futex futex).inherits = false)
    (respects : view.Respects (.wake futex all)) (done : view.wake futex all = some next) :
    next.current = view.current ∧ next.owned = view.owned := by
  obtain ⟨restored, first, rfl⟩ := Option.map_eq_some_iff.mp done
  rw [restore, if_neg (by simp [plain])] at first
  obtain rfl := Option.some_inj.mp first
  have alone : flagSet (view.futex futex).flags schedulerFutexPi →
      (view.waiters futex).length ≤ 1 := by
    intro pi
    refine respects.1 pi fun tracks => ?_
    rw [Futex.inherits, pi, tracks] at plain
    cases plain
  refine ⟨current_wakeWaiters_level (fun pi left right inLeft inRight => ?_) all _,
    owned_wakeWaiters alone all _⟩
  rw [Waits] at inLeft inRight
  obtain ⟨only, one⟩ := List.length_eq_one_iff.mp
    (Nat.le_antisymm (alone pi) (List.length_pos_of_mem inLeft))
  rw [one, List.mem_singleton] at inLeft inRight
  rw [inLeft, inRight]

theorem base_wake (done : view.wake futex all = some next) : next.base = view.base := by
  obtain ⟨restored, first, rfl⟩ := Option.map_eq_some_iff.mp done
  exact (wakeWaiters_fields futex all _).1.trans (restore_restored first).base

theorem untag_wokenValue {woken : List Word} {left : Bool}
    (untracked : ¬flagSet (view.futex futex).flags schedulerFutexOwnerTracking = true) :
    untag (view.wokenValue futex woken left) = view.owner futex := by
  have tagging : ∀ value : Word,
      untag (if flagSet (view.futex futex).flags schedulerFutexContentionTracking then
        if left then tag value else untag value else value) = untag value := by
    intro value
    split
    · split
      · exact untag_tag value
      · exact untag_untag value
    · rfl
  rw [owner, ← tagging (view.value futex)]
  cases woken with
  | nil => rfl
  | cons first rest => simp only [wokenValue, if_neg untracked]

theorem owner_wake (respects : view.Respects (.wake futex all)) (done : view.wake futex all = some next)
    (linked : view.Linked other) (different : other ≠ futex) : next.owner other = view.owner other := by
  obtain ⟨woken, wakes⟩ := exists_wakes done
  rw [owner, owner, value, value, wakes.entries, wakes.memory]
  by_cases shared : (view.futex other).value = (view.futex futex).value
  · rw [shared, Function.update_self]
    refine untag_wokenValue fun tracks => ?_
    exact respects.2 other linked tracks different.symm shared
  · rw [Function.update_of_ne shared]

theorem owner_store {address value : Word} (respects : view.Respects (.store address value))
    (linked : view.Linked futex) :
    { view with memory := Function.update view.memory address value }.owner futex =
      view.owner futex := by
  by_cases same : (view.futex futex).value = address
  · have names := respects.2 futex linked same
    rw [← names, ← same]
    exact congrArg untag (Function.update_self ..)
  · exact congrArg untag (Function.update_of_ne same _ _)

theorem owner_initFutex {value flags : Word} (respects : view.Respects (.initFutex futex value flags))
    (linked : view.Linked other) :
    (view.initFutex futex value flags).futex other = view.futex other ∧
      (view.initFutex futex value flags).owner other = view.owner other := by
  have different : other ≠ futex := by
    rintro rfl
    exact Bool.false_ne_true (respects.1.symm.trans linked.2)
  have entry : (view.initFutex futex value flags).futex other = view.futex other :=
    Function.update_of_ne different _ _
  refine ⟨entry, ?_⟩
  exact congrArg (fun entry : Futex => untag (view.memory entry.value)) entry

theorem owned_wait {value : Word} : (view.wait task futex value).owned =
    if (view.futex futex).inherits then (view.linkOwned futex (untag value)).owned else view.owned := by
  have boosted : ∀ (view : View) (owner : Word), (view.boost futex owner).owned =
      (view.linkOwned futex owner).owned := by
    intro view owner
    simp only [boost]
    split
    · rfl
    · rfl
  simp only [wait]
  split
  · rename_i inherits
    exact (boosted _ _).trans (if_pos inherits).symm
  · rename_i plain
    exact (if_neg plain).symm

theorem base_wait {value : Word} : (view.wait task futex value).base = view.base ∧
    (view.wait task futex value).tasks = view.tasks := by
  have boosted : ∀ (view : View) (owner : Word), (view.boost futex owner).base = view.base ∧
      (view.boost futex owner).tasks = view.tasks := by
    intro view owner
    simp only [boost]
    split
    · exact ⟨rfl, rfl⟩
    · exact ⟨rfl, rfl⟩
  simp only [wait]
  split
  · exact boosted _ _
  · exact ⟨rfl, rfl⟩

theorem untag_waitValue {expected : Word} (seen : view.value futex = expected ∨
      view.value futex = waitValue (view.futex futex) expected) :
    untag (waitValue (view.futex futex) expected) = view.owner futex := by
  rcases seen with seen | seen
  · rw [waitValue, owner, seen]
    split
    · exact untag_tag _
    · rfl
  · rw [owner, seen]

/-- A wait does not change which task a word names. -/
theorem owner_wait {expected : Word} (seen : view.value futex = expected ∨
      view.value futex = waitValue (view.futex futex) expected) (task other : Word) :
    (view.wait task futex (waitValue (view.futex futex) expected)).owner other = view.owner other := by
  have same := untag_waitValue seen
  rw [owner, value, futex_wait, memory_wait]
  by_cases shared : (view.futex other).value = (view.futex futex).value
  · rw [shared, Function.update_self, same, owner, value, owner, value, shared]
  · rw [Function.update_of_ne shared]
    rfl

/-- The priority to which the owner of a futex falls back. -/
theorem fallback_eq (represents : view.owned.Represents lists) : view.fallback futex =
    ((lists (view.owner futex)).filter (· ≠ futex)).foldl
      (fun highest other => min highest (view.highest other)) (view.base (view.owner futex)) := by
  have removed := represents.unlink futex
  rw [← schedListRemove_eq represents] at removed
  rw [fallback]
  change (schedListEntries (schedListRemove view.owned (.node futex)) (view.owner futex)).foldl _ _ = _
  rw [schedListEntries_eq removed]
  rfl

namespace Listed

theorem linked (listed : view.Listed lists) (member : futex ∈ lists task) : view.Linked futex :=
  ⟨(listed.named futex task member).1, (isLinked_iff listed.represents).mpr ⟨task, member⟩⟩

/-- A step that lets nobody join a queue, and that keeps the lists and the names of the futexes in them. -/
theorem congr (listed : view.Listed lists) (owned : next.owned = view.owned)
    (entries : ∀ futex, view.Linked futex ∨ (∃ task, next.Waits task futex) →
      next.futex futex = view.futex futex)
    (owners : ∀ futex, view.Linked futex → next.owner futex = view.owner futex)
    (waits : ∀ task futex, next.Waits task futex → view.Waits task futex)
    (valid : ∀ task ∈ next.tasks, next.base task ≤ schedulerNumTaskPriorities) : next.Listed lists where
  represents := owned ▸ listed.represents
  named futex task member := by
    have linked := listed.linked member
    rw [entries futex (Or.inl linked), owners futex linked]
    exact listed.named futex task member
  contended futex task inherits waiting := by
    rw [entries futex (Or.inr ⟨task, waiting⟩)] at inherits
    have member := listed.contended futex task inherits (waits task futex waiting)
    rw [owners futex (listed.linked member)]
    exact member
  valid := valid

theorem handOver (listed : view.Listed lists) (ordered : view.Ordered) {receiver : Option Word}
    (respects : view.Respects (.wake futex all)) (done : view.wake futex all = some next)
    (inherits : (view.futex futex).inherits) (hands : view.HandsOver futex lists receiver next) :
    ∃ after, next.Listed after := by
  have aligned : ∀ task, receiver = some task → next.owner futex = task :=
    fun task receives => hands.owner ordered receives
  refine ⟨_, hands.owned, ?_, ?_, ?_⟩
  · intro other task member
    rw [hands.entries]
    rcases List.mem_append.mp member with old | new
    · obtain ⟨old, different⟩ := List.mem_filter.mp old
      rw [owner_wake respects done (listed.linked old) (by simpa using different)]
      exact listed.named other task old
    · split at new
      · rename_i receives
        obtain rfl := List.mem_singleton.mp new
        exact ⟨inherits, aligned task receives.1⟩
      · cases new
  · intro other task inheritsOther waits
    rw [hands.entries] at inheritsOther
    have waited := ((hands.waits task other).mp waits).1
    have old := listed.contended other task inheritsOther waited
    by_cases same : other = futex
    · subst same
      cases isReceiver : receiver with
      | none => exact (hands.found isReceiver task waited).elim
      | some first =>
          refine List.mem_append_right _ ?_
          rw [aligned first isReceiver, if_pos ⟨rfl, List.ne_nil_of_mem waits⟩]
          exact List.mem_singleton.mpr rfl
    · refine List.mem_append_left _ ?_
      rw [owner_wake respects done (listed.linked old) same]
      exact List.mem_filter.mpr ⟨old, by simpa using same⟩
  · intro task member
    rw [hands.base]
    exact listed.valid task (hands.tasks ▸ member)

theorem wait (listed : view.Listed lists) {expected : Word}
    (seen : view.value futex = expected ∨ view.value futex = waitValue (view.futex futex) expected) :
    ∃ after, (view.wait task futex (waitValue (view.futex futex) expected)).Listed after := by
  have names := untag_waitValue seen
  have owner := owner_wait seen task
  generalize waitValue (view.futex futex) expected = stored at names owner
  have owned := @owned_wait view task futex stored
  have waits : ∀ other queue, (view.wait task futex stored).Waits other queue ↔
      (queue = futex ∧ other = task) ∨ view.Waits other queue := fun _ _ => waits_wait
  have valid : ∀ other ∈ (view.wait task futex stored).tasks,
      (view.wait task futex stored).base other ≤ schedulerNumTaskPriorities := by
    rw [base_wait.1, base_wait.2]
    exact listed.valid
  have builds : ∀ after : Word → List Word,
      (view.wait task futex stored).owned.Represents after →
      (∀ other task, other ∈ after task → (view.futex other).inherits ∧ view.owner other = task) →
      (∀ other, (view.futex other).inherits → (other = futex ∨ ∃ task, view.Waits task other) →
        other ∈ after (view.owner other)) →
      (view.wait task futex stored).Listed after := by
    intro after represents named contended
    refine ⟨represents, ?_, ?_, valid⟩
    · intro other task member
      rw [futex_wait, owner]
      exact named other task member
    · intro other waiter inherits waiting
      rw [futex_wait] at inherits
      rw [owner]
      refine contended other inherits ?_
      rcases (waits waiter other).mp waiting with ⟨same, _⟩ | old
      · exact Or.inl same
      · exact Or.inr ⟨waiter, old⟩
  have before : ∀ other, (view.futex other).inherits → (∃ task, view.Waits task other) →
      other ∈ lists (view.owner other) :=
    fun other inherits ⟨task, waiting⟩ => listed.contended other task inherits waiting
  by_cases inherits : (view.futex futex).inherits
  · rw [if_pos inherits, linkOwned, names] at owned
    by_cases isLinked : schedListIsLinked view.owned (.node futex)
    · rw [if_pos isLinked] at owned
      refine ⟨lists, builds lists (owned ▸ listed.represents) listed.named ?_⟩
      rintro other inherits (rfl | waiting)
      · obtain ⟨list, member⟩ := (isLinked_iff listed.represents).mp isLinked
        rw [(listed.named other list member).2]
        exact member
      · exact before other inherits waiting
    · rw [if_neg isLinked] at owned
      have owned : (view.wait task futex stored).owned =
          schedListAdd view.owned (.head (view.owner futex)) (.node futex) := owned
      have absent : ∀ list, futex ∉ lists list := fun list member =>
        isLinked ((isLinked_iff listed.represents).mpr ⟨list, member⟩)
      refine ⟨_, builds _ (owned ▸ represents_add listed.represents _ absent) ?_ ?_⟩
      · intro other list member
        by_cases same : list = view.owner futex
        · rw [same, Function.update_self, List.mem_append, List.mem_singleton] at member
          rcases member with old | rfl
          · exact same ▸ listed.named other _ old
          · exact ⟨inherits, same.symm⟩
        · rw [Function.update_of_ne same] at member
          exact listed.named other list member
      · rintro other inherits (rfl | waiting)
        · rw [Function.update_self]
          exact List.mem_append_right _ (List.mem_singleton.mpr rfl)
        · have member := before other inherits waiting
          by_cases same : view.owner other = view.owner futex
          · rw [same, Function.update_self]
            exact List.mem_append_left _ (same ▸ member)
          · rw [Function.update_of_ne same]
            exact member
  · rw [if_neg inherits] at owned
    refine ⟨lists, builds lists (owned ▸ listed.represents) listed.named ?_⟩
    rintro other inheritsOther (rfl | waiting)
    · exact (inherits inheritsOther).elim
    · exact before other inheritsOther waiting

theorem perform (listed : view.Listed lists) (ordered : view.Ordered) {event : Event}
    (enabled : view.Enabled event) (respects : view.Respects event)
    (done : view.perform event = some next) : ∃ lists, next.Listed lists := by
  cases event with
  | quiet =>
      obtain rfl := Option.some_inj.mp done
      exact ⟨lists, listed⟩
  | create task priority =>
      obtain rfl := Option.some_inj.mp done
      have none : lists task = [] := (schedListEntries_eq listed.represents task).symm.trans respects.1.1
      have loose : view.owned.next (.head task) = .head task := by
        have path := listed.represents.ring task
        rw [none] at path
        exact path
      refine ⟨lists, listed.congr (schedListInit_loose listed.represents loose) (fun _ _ => rfl)
        (fun _ _ => rfl) (fun _ _ => id) ?_⟩
      intro other member
      by_cases same : other = task
      · rw [same]
        exact (Function.update_self task priority view.base).le.trans respects.1.2
      · refine (Function.update_of_ne same priority view.base).le.trans (listed.valid other ?_)
        exact (mem_insertEntry.mp member).resolve_left same
  | exit task =>
      obtain rfl := Option.some_inj.mp done
      refine ⟨lists, listed.congr rfl (fun _ _ => rfl) (fun _ _ => rfl) (fun _ _ waits => ?_) ?_⟩
      · exact (waits_remove.mp waits).1
      · exact fun other member => listed.valid other (List.mem_filter.mp member).1
  | depart task =>
      obtain rfl := Option.some_inj.mp done
      refine ⟨lists, listed.congr rfl (fun _ _ => rfl) (fun _ _ => rfl) (fun _ _ waits => ?_)
        listed.valid⟩
      exact (waits_remove.mp waits).1
  | setPriority task priority =>
      obtain rfl := Option.some_inj.mp done
      refine ⟨lists, listed.congr rfl (fun _ _ => rfl) (fun _ _ => rfl) (fun _ _ waits => ?_) ?_⟩
      · exact waits_reprioritize.mp waits
      · intro other member
        by_cases same : other = task
        · rw [same]
          exact (Function.update_self task priority view.base).le.trans respects.1
        · exact (Function.update_of_ne same priority view.base).le.trans (listed.valid other member)
  | wait task futex expected =>
      obtain rfl := Option.some_inj.mp done
      exact listed.wait enabled.2.2
  | wake futex all =>
      by_cases inherits : (view.futex futex).inherits
      · obtain ⟨receiver, hands⟩ := handsOver_of_wake listed.represents inherits done
        exact listed.handOver ordered respects done inherits hands
      · obtain ⟨woken, wakes⟩ := exists_wakes done
        have plain := plain_wake (Bool.eq_false_of_not_eq_true inherits) respects done
        refine ⟨lists, listed.congr plain.2 (fun other _ => congrFun wakes.entries other)
          (fun other linked => owner_wake respects done linked ?_)
          (fun _ _ waits => ((wakes.waits _ _).mp waits).1) ?_⟩
        · rintro rfl
          exact inherits linked.1
        · rw [wakes.tasks, base_wake done]
          exact listed.valid
  | store address value =>
      obtain rfl := Option.some_inj.mp done
      exact ⟨lists, listed.congr rfl (fun _ _ => rfl) (fun _ => owner_store respects)
        (fun _ _ => id) listed.valid⟩
  | initFutex futex value flags =>
      obtain rfl := Option.some_inj.mp done
      have loose : view.owned.next (.node futex) = .node futex := by
        simpa [Admits, schedListIsLinked] using respects.1
      refine ⟨lists, listed.congr (schedListInit_loose listed.represents loose) ?_
        (fun _ linked => (owner_initFutex respects linked).2) (fun _ _ => id) listed.valid⟩
      rintro other (linked | ⟨task, waits⟩)
      · exact (owner_initFutex respects linked).1
      · refine Function.update_of_ne ?_ _ _
        rintro rfl
        have empty : view.waiters other = [] := enabled
        have waiting : task ∈ view.waiters other := waits
        rw [empty] at waiting
        cases waiting

end Listed

theorem listed_initial (begins : contention.initial view) : view.Listed fun _ => [] := by
  obtain ⟨memory, rfl⟩ := begins
  refine ⟨Links.empty_represents, ?_, ?_, ?_⟩
  · intro futex task member
    cases member
  · intro futex task inherits waits
    cases waits
  · intro task member
    cases member

end View

section Runs

variable {cores : Nat} [NeZero cores]

/-- An invariant of the runs whose steps the lists can rely on. -/
theorem invariant_of_respects {motive : View → Prop} {guard : View → Event → Prop}
    {state : State Links cores}
    (reached : (scheduler cores).Guarded
      (fun state action => guard state.view (event state action)) state)
    (respects : ∀ view event, guard view event → view.Respects event)
    (initially : ∀ view, contention.initial view → motive view)
    (preserved : ∀ view event next lists, motive view → view.Ordered → view.Listed lists →
      view.Enabled event → guard view event → view.perform event = some next → motive next) :
    motive state.view := by
  suffices all : state.view.Ordered ∧ (∃ lists, state.view.Listed lists) ∧ motive state.view from all.2.2
  refine (view_guarded reached).invariant
    (motive := fun view => view.Ordered ∧ (∃ lists, view.Listed lists) ∧ motive view) ?_ ?_
  · exact fun view begins =>
      ⟨View.ordered_initial begins, ⟨_, View.listed_initial begins⟩, initially view begins⟩
  · rintro view event next ⟨ordered, ⟨lists, listed⟩, holds⟩ ⟨enabled, allowed⟩ done
    exact ⟨ordered.perform enabled done,
      listed.perform ordered enabled (respects view event allowed) done,
      preserved view event next lists holds ordered listed enabled allowed done⟩

/-- Only these futexes are set up. -/
def Event.setsUp (known : List Word) : Event → Bool
  | .initFutex futex _ _ => decide (futex ∈ known)
  | _ => true

theorem known_of_inherits {known : List Word} {state : State Links cores}
    (reached : (scheduler cores).Guarded
      (fun state action => (event state action).setsUp known = true) state) {futex : Word}
    (inherits : (state.view.futex futex).inherits) : futex ∈ known := by
  have viewed := @view_guarded cores _ (fun _ event => event.setsUp known = true) state reached
  refine viewed.invariant
    (motive := fun view => ∀ futex, (view.futex futex).inherits → futex ∈ known) ?_ ?_ futex inherits
  · rintro view ⟨memory, rfl⟩ futex inherits
    have plain : ({} : Futex).inherits = false := by decide
    exact (Bool.false_ne_true (plain.symm.trans inherits)).elim
  · intro view event next known allowed done futex inherits
    by_cases setUp : ∃ value flags, event = .initFutex futex value flags
    · obtain ⟨value, flags, rfl⟩ := setUp
      exact of_decide_eq_true allowed.2
    · rw [View.futex_of_perform done fun value flags same => setUp ⟨value, flags, same⟩] at inherits
      exact known futex inherits

/-- A condition on every futex with inheritance, looked up for those that are set up. -/
def Looked (known : List Word) (admits : View → Event → Prop) (each : View → Word → Event → Prop)
    (state : State Links cores) (action : Action cores) : Prop :=
  (event state action).setsUp known = true ∧ admits state.view (event state action) ∧
    ∀ futex ∈ known, each state.view futex (event state action)

instance (known : List Word) (admits : View → Event → Prop) (each : View → Word → Event → Prop)
    [∀ view event, Decidable (admits view event)] [∀ view futex event, Decidable (each view futex event)]
    (state : State Links cores) (action : Action cores) :
    Decidable (Looked known admits each state action) :=
  inferInstanceAs (Decidable (_ ∧ _ ∧ _))

theorem guarded_of_looked {known : List Word} {admits : View → Event → Prop}
    {each : View → Word → Event → Prop} {state : State Links cores}
    (reached : (scheduler cores).Guarded (Looked known admits each) state) :
    (scheduler cores).Guarded (fun state action => admits state.view (event state action) ∧
      ∀ futex, (state.view.futex futex).inherits → each state.view futex (event state action)) state := by
  have both : (scheduler cores).Guarded
      (fun state action => (event state action).setsUp known = true) state ∧
      (scheduler cores).Guarded (fun state action => admits state.view (event state action) ∧
        ∀ futex, (state.view.futex futex).inherits → each state.view futex (event state action))
        state := by
    induction reached with
    | start begins => exact ⟨.start begins, .start begins⟩
    | step _ allowed moved ih =>
        obtain ⟨setsUp, admitted, all⟩ := allowed
        refine ⟨ih.1.step setsUp moved, ih.2.step ⟨admitted, fun futex inherits => ?_⟩ moved⟩
        exact all futex (known_of_inherits ih.1 inherits)
  exact both.2

end Runs

end PicoToolkit
