import PicoToolkit.Retarget.Lock

/-!
The lock of the C library excludes as long as each task reads from `expected` what it has written
there.
-/

namespace PicoToolkit.Retarget

open Transition

def LockPlace.active : LockPlace → Bool
  | .begin waits | .load waits _ | .clear waits _ | .exchange waits _ => waits
  | .relax _ | .wait _ | .wake (some _) | .signal => true
  | _ => false

def PlaceOk (lock : RetargetLock) (task : TaskPointer) (current : LockTask) : Prop :=
  match current.place with
  | .idle | .begin _ | .check | .signal => 0 < current.depth → lock.count = current.depth
  | .load _ value =>
      (∃ core, value = task.lockValue core) ∧
        (0 < current.depth → value = lock.value ∧ lock.count = current.depth)
  | .again | .countDown | .wake none => 0 < current.depth ∧ lock.count = current.depth
  | .countAgain count => 0 < current.depth ∧ count = current.depth + 1
  | .clear _ value | .exchange _ value | .wake (some value) =>
      current.depth = 0 ∧ ∃ core, value = task.lockValue core
  | .count => current.depth = 1
  | .relax value | .wait value => current.depth = 0 ∧ value ≠ 0
  | .blocked | .aborted => current.depth = 0
  | .uncount count => 0 < current.depth ∧ count = current.depth - 1
  | .store => 0 < current.depth → current.depth = 1
  | .release value =>
      (∃ core, value = task.lockValue core) ∧
        (0 < current.depth → current.depth = 1 ∧ value = lock.value)

/-- The lock and its tasks in a run in which nobody interferes with `expected`. -/
structure LockSound (state : LockState) : Prop where
  holder : ∀ task, 0 < (state.task task).depth →
    ∃ core, state.lock.value = task.lockValue core
  held : state.lock.value ≠ 0 → ∃ task, 0 < (state.task task).depth
  places : ∀ task, PlaceOk state.lock task (state.task task)
  queued : ∀ task, task ∈ state.waiters ↔ (state.task task).place = .blocked
  nodup : state.waiters.Nodup
  progress : state.lock.value = 0 → state.waiters ≠ [] → ∃ task, (state.task task).place.active

section

variable {state next : LockState} {task woken : TaskPointer}

theorem PlaceOk.other {lock after : RetargetLock} {current : LockTask}
    (ok : PlaceOk lock task current)
    (same : 0 < current.depth → after.value = lock.value ∧ after.count = lock.count) :
    PlaceOk after task current := by
  unfold PlaceOk at ok ⊢
  split at ok
  case h_1 | h_2 | h_3 | h_4 =>
    intro holds
    rw [(same holds).2]
    exact ok holds
  case h_5 =>
    refine ⟨ok.1, fun holds => ?_⟩
    rw [(same holds).1, (same holds).2]
    exact ok.2 holds
  case h_6 | h_7 | h_8 =>
    refine ⟨ok.1, ?_⟩
    rw [(same ok.1).2]
    exact ok.2
  case h_20 =>
    refine ⟨ok.1, fun holds => ?_⟩
    rw [(same holds).1]
    exact ok.2 holds
  all_goals exact ok

namespace LockSound

theorem eq_of_depth (sound : LockSound state) {first second : TaskPointer}
    (one : 0 < (state.task first).depth) (other : 0 < (state.task second).depth) :
    first = second := by
  obtain ⟨core, isFirst⟩ := sound.holder first one
  obtain ⟨_, isSecond⟩ := sound.holder second other
  exact (lockValue_inj (isFirst.symm.trans isSecond)).1

theorem depth_of_lockValue (sound : LockSound state) {core : Fin 2}
    (own : state.lock.value = task.lockValue core) : 0 < (state.task task).depth := by
  have nonzero : state.lock.value ≠ 0 := own ▸ lockValue_ne_zero task core
  obtain ⟨other, holds⟩ := sound.held nonzero
  obtain ⟨_, isOther⟩ := sound.holder other holds
  obtain rfl := (lockValue_inj (isOther.symm.trans own)).1
  exact holds

theorem depth_eq_zero (sound : LockSound state) (free : state.lock.value = 0) (other : TaskPointer) :
    (state.task other).depth = 0 := by
  by_contra holds
  obtain ⟨core, own⟩ := sound.holder other (Nat.pos_of_ne_zero holds)
  exact lockValue_ne_zero other core (own.symm.trans free)

theorem change (sound : LockSound state) {lock : RetargetLock} {after : LockTask}
    (others : ∀ other, other ≠ task → 0 < (state.task other).depth →
      lock.value = state.lock.value ∧ lock.count = state.lock.count)
    (own : PlaceOk lock task after)
    (holder : 0 < after.depth → ∃ core, lock.value = task.lockValue core)
    (held : lock.value ≠ 0 → 0 < after.depth ∨ ∃ other, other ≠ task ∧ 0 < (state.task other).depth)
    (notBlocked : (state.task task).place ≠ .blocked) (notAfter : after.place ≠ .blocked)
    (progress : lock.value = 0 → state.waiters ≠ [] → after.place.active ∨
      ∃ other, other ≠ task ∧ (state.task other).place.active) :
    LockSound { state.set task after with lock := lock } := by
  have self : Function.update state.task task after task = after := Function.update_self ..
  have same : ∀ other, other ≠ task → Function.update state.task task after other = state.task other :=
    fun other different => Function.update_of_ne different ..
  constructor
  · intro other holds
    simp only [LockState.set] at holds ⊢
    by_cases isTask : other = task
    · subst isTask
      rw [self] at holds
      exact holder holds
    · rw [same other isTask] at holds
      rw [(others other isTask holds).1]
      exact sound.holder other holds
  · intro nonzero
    rcases held nonzero with holds | ⟨other, different, holds⟩
    · exact ⟨task, by simpa only [LockState.set, self] using holds⟩
    · exact ⟨other, by simpa only [LockState.set, same other different] using holds⟩
  · intro other
    simp only [LockState.set]
    by_cases isTask : other = task
    · subst isTask
      rw [self]
      exact own
    · rw [same other isTask]
      exact (sound.places other).other (others other isTask)
  · intro other
    simp only [LockState.set]
    by_cases isTask : other = task
    · subst isTask
      rw [self, sound.queued]
      exact iff_of_false notBlocked notAfter
    · rw [same other isTask]
      exact sound.queued other
  · exact sound.nodup
  · intro free waiting
    rcases progress free waiting with active | ⟨other, different, active⟩
    · exact ⟨task, by simpa only [LockState.set, self] using active⟩
    · exact ⟨other, by simpa only [LockState.set, same other different] using active⟩

theorem progress_of (sound : LockSound state) {place : LockPlace}
    (keeps : state.lock.value = 0 → (state.task task).place.active → place.active)
    (free : state.lock.value = 0) (waiting : state.waiters ≠ []) :
    place.active ∨ ∃ other, other ≠ task ∧ (state.task other).place.active := by
  obtain ⟨other, active⟩ := sound.progress free waiting
  by_cases same : other = task
  · subst same
    exact Or.inl (keeps free active)
  · exact Or.inr ⟨other, same, active⟩

theorem goes (sound : LockSound state) {place : LockPlace} {lock : RetargetLock}
    (value : lock.value = state.lock.value) (count : lock.count = state.lock.count)
    (own : PlaceOk state.lock task { state.task task with place := place })
    (notBlocked : (state.task task).place ≠ .blocked) (notAfter : place ≠ .blocked)
    (keeps : state.lock.value = 0 → (state.task task).place.active → place.active) :
    LockSound { state.goes task place with lock := lock } := by
  refine sound.change (fun _ _ _ => ⟨value, count⟩) (own.other fun _ => ⟨value, count⟩) ?_ ?_ notBlocked
    notAfter ?_
  · intro holds
    rw [value]
    exact sound.holder task holds
  · intro nonzero
    rw [value] at nonzero
    obtain ⟨other, holds⟩ := sound.held nonzero
    by_cases same : other = task
    · subst same
      exact Or.inl holds
    · exact Or.inr ⟨other, same, holds⟩
  · intro free waiting
    rw [value] at free
    exact sound.progress_of keeps free waiting

theorem held_goes (sound : LockSound state) (place : LockPlace) (nonzero : state.lock.value ≠ 0) :
    ∃ other, 0 < ((state.goes task place).task other).depth := by
  obtain ⟨other, holds⟩ := sound.held nonzero
  refine ⟨other, ?_⟩
  rw [LockState.goes_depth]
  exact holds

theorem unqueue (sound : LockSound state) {waiter : TaskPointer} {place : LockPlace}
    (member : waiter ∈ state.waiters)
    (own : PlaceOk state.lock waiter { state.task waiter with place := place })
    (notBlocked : place ≠ .blocked) :
    LockSound { state.goes waiter place with waiters := state.waiters.erase waiter } := by
  have blocked : (state.task waiter).place = .blocked := (sound.queued waiter).mp member
  have self := state.goes_self waiter place
  have stays (other : TaskPointer) := @LockState.goes_of_ne state waiter other place
  constructor
  · intro other holds
    rw [LockState.goes_depth] at holds
    exact sound.holder other holds
  · exact sound.held_goes _
  · intro other
    by_cases same : other = waiter
    · subst same
      rw [self]
      exact own
    · rw [stays other same]
      exact sound.places other
  · intro other
    rw [sound.nodup.mem_erase_iff]
    by_cases same : other = waiter
    · subst same
      rw [self]
      exact iff_of_false (fun both => both.1 rfl) notBlocked
    · rw [stays other same, sound.queued]
      exact and_iff_right same
  · exact sound.nodup.erase waiter
  · intro free waiting
    have some : state.waiters ≠ [] := fun none => waiting (by rw [none]; rfl)
    obtain ⟨other, active⟩ := sound.progress free some
    have different : other ≠ waiter := by
      rintro rfl
      rw [blocked] at active
      exact absurd active Bool.false_ne_true
    refine ⟨other, ?_⟩
    rw [stays other different]
    exact active

theorem wakes (sound : LockSound state) {waiter : TaskPointer} (member : waiter ∈ state.waiters) :
    LockSound (state.wakes waiter) := by
  refine sound.unqueue member ?_ (by simp)
  have own := sound.places waiter
  rw [PlaceOk, (sound.queued waiter).mp member] at own
  intro holds
  rw [show (state.task waiter).depth = 0 from own] at holds
  exact absurd holds (by decide)

theorem enqueue (sound : LockSound state) (depth : (state.task task).depth = 0)
    (notBlocked : (state.task task).place ≠ .blocked) (taken : state.lock.value ≠ 0) :
    LockSound { state.goes task .blocked with waiters := state.waiters ++ [task] } := by
  have notWaiting : task ∉ state.waiters := fun member => notBlocked ((sound.queued task).mp member)
  have self := state.goes_self task .blocked
  have stays (other : TaskPointer) := @LockState.goes_of_ne state task other .blocked
  constructor
  · intro other holds
    rw [LockState.goes_depth] at holds
    exact sound.holder other holds
  · exact sound.held_goes _
  · intro other
    by_cases same : other = task
    · subst same
      rw [self]
      exact depth
    · rw [stays other same]
      exact sound.places other
  · intro other
    rw [List.mem_append, List.mem_singleton]
    by_cases same : other = task
    · subst same
      rw [self]
      exact iff_of_true (Or.inr rfl) rfl
    · rw [stays other same, sound.queued]
      exact or_iff_left same
  · exact sound.nodup.append (List.nodup_singleton task) (List.disjoint_singleton.mpr notWaiting)
  · exact fun free => absurd free taken

theorem own (sound : LockSound state) {place : LockPlace}
    (isAt : (state.task task).place = place) :
    PlaceOk state.lock task { state.task task with place := place } := by
  subst isAt
  exact sound.places task

theorem exchange (sound : LockSound state) {waits : Bool} {value : Word}
    (isAt : (state.task task).place = .exchange waits value) (reads : state.lock.expected = 0)
    (moved : state.advance task woken = some next) : LockSound next := by
  have notBlocked : (state.task task).place ≠ .blocked := by rw [isAt]; simp
  obtain ⟨depth, isValue⟩ := sound.own isAt
  simp only [LockState.advance, isAt, reads] at moved
  split at moved
  case isTrue free =>
    cases moved
    have none := sound.depth_eq_zero free
    refine sound.change (fun other _ holds => ?_) rfl (fun _ => isValue) (fun _ => Or.inl Nat.one_pos)
      notBlocked (by simp) (fun zero _ => ?_)
    · rw [none other] at holds
      exact absurd holds (by decide)
    · obtain ⟨core, rfl⟩ := isValue
      exact absurd zero (lockValue_ne_zero task core)
  case isFalse taken =>
    cases moved
    refine sound.goes rfl rfl ?_ notBlocked (by cases waits <;> simp) (fun free => absurd free taken)
    cases waits
    · intro holds
      rw [show (state.task task).depth = 0 from depth] at holds
      exact absurd holds (by decide)
    · exact ⟨depth, taken⟩

theorem release (sound : LockSound state) {value : Word}
    (isAt : (state.task task).place = .release value) (reads : state.lock.expected = value)
    (moved : state.advance task woken = some next) : LockSound next := by
  have notBlocked : (state.task task).place ≠ .blocked := by rw [isAt]; simp
  obtain ⟨⟨core, isValue⟩, holder⟩ := sound.own isAt
  simp only [LockState.advance, isAt, reads] at moved
  split at moved
  case isTrue owned =>
    cases moved
    have holds : 0 < (state.task task).depth := sound.depth_of_lockValue (owned.trans isValue)
    refine sound.change (fun other different otherHolds => ?_) ⟨rfl, core, isValue⟩
      (fun none => absurd none (Nat.lt_irrefl 0)) (fun nonzero => absurd rfl nonzero) notBlocked (by simp)
      (fun _ _ => Or.inl rfl)
    exact absurd (sound.eq_of_depth otherHolds holds) different
  case isFalse other =>
    cases moved
    have depth : (state.task task).depth = 0 := by
      by_contra holds
      exact other (holder (Nat.pos_of_ne_zero holds)).2.symm
    refine sound.goes rfl rfl ?_ notBlocked (by simp) (fun _ active => ?_)
    · exact depth
    · rw [isAt] at active
      exact absurd active Bool.false_ne_true

theorem signal (sound : LockSound state) (isAt : (state.task task).place = .signal)
    (moved : state.advance task woken = some next) : LockSound next := by
  have notBlocked : (state.task task).place ≠ .blocked := by rw [isAt]; simp
  simp only [LockState.advance, isAt] at moved
  split at moved
  case isTrue none =>
    cases moved
    have ok := sound.own isAt
    refine sound.change (fun _ _ _ => ⟨rfl, rfl⟩) ok (sound.holder task) (fun nonzero => ?_)
      notBlocked (by simp) (fun _ waiting => absurd none waiting)
    obtain ⟨other, holds⟩ := sound.held nonzero
    exact or_iff_not_imp_left.mpr fun not => ⟨other, fun same => not (same ▸ holds), holds⟩
  case isFalse =>
    split at moved
    case isFalse => cases moved
    case isTrue member =>
      cases moved
      have blocked := (sound.queued woken).mp member
      have different : woken ≠ task := by
        rintro rfl
        exact notBlocked blocked
      have stays : (state.wakes woken).task task = state.task task :=
        Function.update_of_ne different.symm ..
      have wakens : ((state.wakes woken).task woken).place = .begin true :=
        by simp only [LockState.wakes, LockState.goes, LockState.set, Function.update_self]
      have swap : (state.goes task .idle).wakes woken =
          { (state.wakes woken).set task { (state.wakes woken).task task with place := .idle } with
            lock := (state.wakes woken).lock } := by
        rw [stays]
        simp only [LockState.wakes, LockState.goes, LockState.set, Function.update_of_ne different,
          Function.update_comm different]
      have woke := sound.wakes member
      rw [swap]
      refine woke.change (fun _ _ _ => ⟨rfl, rfl⟩) ?_ (woke.holder task) (fun nonzero => ?_) ?_ (by simp)
        (fun _ _ => Or.inr ⟨woken, different, ?_⟩)
      · have ok := woke.places task
        rw [stays] at ok ⊢
        rw [PlaceOk, isAt] at ok
        exact ok
      · obtain ⟨other, holds⟩ := woke.held nonzero
        exact or_iff_not_imp_left.mpr fun not => ⟨other, fun same => not (same ▸ holds), holds⟩
      · rw [stays]
        exact notBlocked
      · rw [wakens]
        rfl

theorem ne_blocked {place : LockPlace} (isAt : (state.task task).place = place)
    (different : place ≠ .blocked) : (state.task task).place ≠ .blocked :=
  isAt ▸ different

theorem load (sound : LockSound state) {waits : Bool} {value : Word}
    (isAt : (state.task task).place = .load waits value)
    (moved : state.advance task woken = some next) : LockSound next := by
  have notBlocked := ne_blocked isAt (by simp)
  obtain ⟨⟨core, isValue⟩, holder⟩ := sound.own isAt
  simp only [LockState.advance, isAt] at moved
  cases moved
  split
  case isTrue owned =>
    have holds : 0 < (state.task task).depth := sound.depth_of_lockValue (owned.symm.trans isValue)
    refine sound.goes rfl rfl ⟨holds, (holder holds).2⟩ notBlocked (by simp) (fun free => ?_)
    exact absurd (isValue.symm.trans (owned.trans free)) (lockValue_ne_zero task core)
  case isFalse other =>
    have depth : (state.task task).depth = 0 := by
      by_contra holds
      exact other (holder (Nat.pos_of_ne_zero holds)).1
    refine sound.goes rfl rfl ⟨depth, core, isValue⟩ notBlocked (by simp) (fun _ active => ?_)
    rw [isAt] at active
    exact active

/-- The owner stores another count. -/
theorem recount (sound : LockSound state) {place : LockPlace} {depth : Nat} {count : Int}
    (holds : 0 < (state.task task).depth) (more : 0 < depth)
    (own : PlaceOk { state.lock with count := count } task
      { state.task task with place := place, depth := depth })
    (inactive : (state.task task).place.active = false)
    (notBlocked : (state.task task).place ≠ .blocked) (notAfter : place ≠ .blocked) :
    LockSound { state.set task { state.task task with place := place, depth := depth } with
      lock := { state.lock with count := count } } := by
  refine sound.change (fun other different otherHolds => ?_) own (fun _ => sound.holder task holds)
    (fun _ => Or.inl more) notBlocked notAfter (fun free waiting => ?_)
  · exact absurd (sound.eq_of_depth otherHolds holds) different
  · refine sound.progress_of (fun _ active => ?_) free waiting
    rw [inactive] at active
    exact absurd active Bool.false_ne_true

theorem uncount (sound : LockSound state) {count : Int}
    (isAt : (state.task task).place = .uncount count)
    (moved : state.advance task woken = some next) : LockSound next := by
  have notBlocked := ne_blocked isAt (by simp)
  have inactive : (state.task task).place.active = false := by rw [isAt]; rfl
  have ok := sound.own isAt
  have holds : 0 < (state.task task).depth := ok.1
  have isCount : count = ((state.task task).depth : Int) - 1 := ok.2
  simp only [LockState.advance, isAt] at moved
  split at moved
  case isTrue positive =>
    cases moved
    have more : 0 < (state.task task).depth - 1 := by omega
    refine sound.recount holds more ⟨more, ?_⟩ inactive notBlocked (by simp)
    show count = (((state.task task).depth - 1 : Nat) : Int)
    omega
  case isFalse last =>
    cases moved
    refine sound.recount holds holds (fun _ => ?_) inactive notBlocked (by simp)
    show (state.task task).depth = 1
    omega

theorem wait (sound : LockSound state) {expected : Word}
    (isAt : (state.task task).place = .wait expected)
    (moved : state.advance task woken = some next) : LockSound next := by
  have notBlocked := ne_blocked isAt (by simp)
  obtain ⟨depth, nonzero⟩ := sound.own isAt
  simp only [LockState.advance, isAt] at moved
  split at moved
  case isTrue same =>
    cases moved
    exact sound.enqueue depth notBlocked (same ▸ nonzero)
  case isFalse =>
    cases moved
    refine sound.goes rfl rfl (fun holds => ?_) notBlocked (by simp) (fun _ _ => rfl)
    exact absurd holds (by rw [depth]; decide)

theorem wake (sound : LockSound state) {value : Option Word}
    (isAt : (state.task task).place = .wake value) (reads : ∀ own ∈ value, state.lock.expected = own)
    (moved : state.advance task woken = some next) : LockSound next := by
  have notBlocked := ne_blocked isAt (by simp)
  have ok := sound.own isAt
  simp only [LockState.advance, isAt] at moved
  cases moved
  cases value with
  | none =>
    split
    · refine sound.goes rfl rfl (fun _ => ok.2) notBlocked (by simp) (fun _ active => ?_)
      rw [isAt] at active
      exact absurd active Bool.false_ne_true
    · exact sound.goes rfl rfl (fun _ => ok.2) notBlocked (by simp) (fun _ _ => rfl)
  | some value =>
    obtain ⟨depth, core, isValue⟩ := ok
    have running : state.lock.expected &&& ~~~3 ≠ 0 := by
      rw [reads value rfl, isValue]
      exact lockValue_and_ne_zero task core
    rw [if_neg running]
    refine sound.goes rfl rfl (fun holds => ?_) notBlocked (by simp) (fun _ _ => rfl)
    exact absurd holds (Nat.not_lt.mpr depth.le)

theorem advance (sound : LockSound state) (reads : ReadsOwn state (.act task woken))
    (onOwn : OnOwnCore state (.act task woken))
    (moved : state.advance task woken = some next) : LockSound next := by
  obtain ⟨place, isAt⟩ : ∃ place, (state.task task).place = place := ⟨_, rfl⟩
  have ok := sound.own isAt
  have keeps {after : LockPlace} (keeps : place.active = true → after.active = true) :
      state.lock.value = 0 → (state.task task).place.active = true → after.active = true := by
    rw [isAt]
    exact fun _ => keeps
  have notBlocked : place ≠ .blocked → (state.task task).place ≠ .blocked := by
    rw [isAt]
    exact id
  simp only [ReadsOwn, isAt] at reads
  simp only [OnOwnCore, isAt] at onOwn
  have stepped := moved
  simp only [LockState.advance, isAt] at moved
  cases place with
  | idle | blocked | aborted => cases moved
  | «begin» waits =>
    cases moved
    exact sound.goes rfl rfl ⟨⟨_, rfl⟩, fun holds => ⟨onOwn holds, ok holds⟩⟩ (notBlocked (by simp))
      (by simp) (keeps id)
  | load waits value =>
    exact sound.load isAt stepped
  | again =>
    cases moved
    exact sound.goes rfl rfl ⟨ok.1, congrArg (· + 1) ok.2⟩ (notBlocked (by simp)) (by simp) (keeps id)
  | countAgain count =>
    cases moved
    exact sound.recount ok.1 (Nat.succ_pos _) (fun _ => ok.2) (by rw [isAt]; rfl)
      (notBlocked (by simp)) (by simp)
  | clear waits value =>
    cases moved
    exact sound.goes rfl rfl ok (notBlocked (by simp)) (by simp) (keeps id)
  | exchange waits value =>
    exact sound.exchange isAt reads stepped
  | count =>
    cases moved
    have holds : 0 < (state.task task).depth := by
      rw [show (state.task task).depth = 1 from ok]
      exact Nat.one_pos
    refine sound.recount holds holds (fun _ => ?_) (by rw [isAt]; rfl) (notBlocked (by simp)) (by simp)
    exact congrArg Nat.cast (show (state.task task).depth = 1 from ok).symm
  | relax found =>
    cases moved
    refine sound.goes rfl rfl ?_ (notBlocked (by simp)) (by simp) (keeps id)
    rw [reads]
    exact ok
  | wait expected =>
    exact sound.wait isAt stepped
  | check =>
    cases moved
    split
    case isTrue owned =>
      have holds : 0 < (state.task task).depth := sound.depth_of_lockValue owned
      exact sound.goes rfl rfl ⟨holds, ok holds⟩ (notBlocked (by simp)) (by simp) (keeps id)
    case isFalse other =>
      exact sound.goes rfl rfl (fun holds => absurd (onOwn holds).symm other) (notBlocked (by simp))
        (by simp) (keeps id)
  | countDown =>
    cases moved
    exact sound.goes rfl rfl ⟨ok.1, congrArg (· - 1) ok.2⟩ (notBlocked (by simp)) (by simp) (keeps id)
  | uncount count =>
    exact sound.uncount isAt stepped
  | store =>
    cases moved
    exact sound.goes rfl rfl ⟨⟨_, rfl⟩, fun holds => ⟨ok holds, onOwn holds⟩⟩ (notBlocked (by simp))
      (by simp) (keeps id)
  | release value =>
    exact sound.release isAt reads stepped
  | wake value =>
    refine sound.wake isAt (fun own isOwn => ?_) stepped
    subst isOwn
    exact reads
  | signal =>
    exact sound.signal isAt stepped

theorem migrate (sound : LockSound state) (task : TaskPointer) (core : Fin 2) :
    LockSound (state.set task { state.task task with core := core }) := by
  have same (other : TaskPointer) : ∃ number, (state.set task { state.task task with core := core }).task other =
      { state.task other with core := number } := by
    by_cases isTask : other = task
    · subst isTask
      exact ⟨core, Function.update_self ..⟩
    · exact ⟨(state.task other).core, Function.update_of_ne isTask ..⟩
  have depth (other : TaskPointer) : ((state.set task { state.task task with core := core }).task other).depth =
      (state.task other).depth := by
    obtain ⟨_, isTask⟩ := same other
    rw [isTask]
  have place (other : TaskPointer) : ((state.set task { state.task task with core := core }).task other).place =
      (state.task other).place := by
    obtain ⟨_, isTask⟩ := same other
    rw [isTask]
  constructor
  · intro other holds
    rw [depth] at holds
    exact sound.holder other holds
  · intro nonzero
    obtain ⟨other, holds⟩ := sound.held nonzero
    exact ⟨other, (depth other).symm ▸ holds⟩
  · intro other
    obtain ⟨_, isTask⟩ := same other
    rw [isTask]
    exact sound.places other
  · intro other
    rw [place]
    exact sound.queued other
  · exact sound.nodup
  · intro free waiting
    obtain ⟨other, active⟩ := sound.progress free waiting
    exact ⟨other, (place other).symm ▸ active⟩

theorem step (sound : LockSound state) {action : LockAction} (reads : ReadsOwn state action)
    (onOwn : OnOwnCore state action) (moved : state.step action = some next) :
    LockSound next := by
  cases action with
  | call task call =>
    simp only [LockState.step] at moved
    split at moved
    case isFalse => cases moved
    case isTrue idle =>
      cases moved
      have ok := sound.own idle
      refine sound.goes rfl rfl ?_ (by simp [idle]) (by cases call <;> simp) (fun _ active => ?_)
      · cases call with
        | _ => exact ok
      · rw [idle] at active
        exact absurd active Bool.false_ne_true
  | act task woken => exact sound.advance reads onOwn moved
  | migrate task core =>
    cases moved
    exact sound.migrate task core
  | resume task =>
    simp only [LockState.step] at moved
    split at moved
    case isFalse => cases moved
    case isTrue blocked =>
      cases moved
      have ok := sound.own blocked
      exact sound.unqueue ((sound.queued task).mpr blocked) ok (by simp)

end LockSound

/-- A task that holds the lock or is inside a call is on the core on which it has begun to be. -/
def SettledTask (held : Word) (task : TaskPointer) (current : LockTask) : Prop :=
  (0 < current.depth → held = task.lockValue current.core) ∧
    match current.place with
    | .load _ value | .clear _ value | .exchange _ value =>
        value = task.lockValue current.core
    | _ => True

def Settled (state : LockState) : Prop :=
  ∀ task, SettledTask state.lock.value task (state.task task)

namespace Settled

theorem onOwnCore (settled : Settled state) (action : LockAction) :
    OnOwnCore state action := by
  cases action with
  | call _ _ | migrate _ _ | resume _ => trivial
  | act task woken =>
    simp only [OnOwnCore]
    split
    case h_4 => trivial
    all_goals exact fun holds => ((settled task).1 holds).symm

theorem change (settled : Settled state) {held : Word} (after : LockTask)
    (others : ∀ other, other ≠ task → 0 < (state.task other).depth → held = state.lock.value)
    (own : SettledTask held task after) (other : TaskPointer) :
    SettledTask held other ((state.set task after).task other) := by
  by_cases isTask : other = task
  · subst isTask
    rw [show (state.set other after).task other = after from Function.update_self ..]
    exact own
  · rw [show (state.set task after).task other = state.task other from Function.update_of_ne isTask ..]
    refine ⟨fun holds => ?_, (settled other).2⟩
    rw [others other isTask holds]
    exact (settled other).1 holds

theorem goes (settled : Settled state) (place : LockPlace)
    (own : match place with
      | .load _ value | .clear _ value | .exchange _ value =>
          value = task.lockValue (state.task task).core
      | _ => True) (other : TaskPointer) :
    SettledTask state.lock.value other ((state.goes task place).task other) :=
  settled.change { state.task task with place := place } (fun _ _ _ => rfl) ⟨(settled task).1, own⟩
    other

theorem advance (settled : Settled state) (sound : LockSound state)
    (reads : ReadsOwn state (.act task woken)) (moved : state.advance task woken = some next) :
    Settled next := by
  obtain ⟨place, isAt⟩ : ∃ place, (state.task task).place = place := ⟨_, rfl⟩
  have ok := sound.own isAt
  have own := (settled task).2
  simp only [ReadsOwn, isAt] at reads
  simp only [LockState.advance, isAt] at moved own
  cases place with
  | idle | blocked | aborted => cases moved
  | «begin» waits =>
    cases moved
    exact settled.goes (.load waits _) rfl
  | load waits value =>
    cases moved
    split
    · exact settled.goes .again trivial
    · exact settled.goes (.clear waits value) own
  | again | relax _ | countDown | store =>
    cases moved
    exact settled.goes _ trivial
  | check =>
    cases moved
    split
    · exact settled.goes .countDown trivial
    · exact settled.goes .store trivial
  | wake value =>
    cases moved
    split
    · exact settled.goes .idle trivial
    · exact settled.goes .signal trivial
  | countAgain count =>
    cases moved
    exact settled.change _ (fun _ _ _ => rfl) ⟨fun _ => (settled task).1 ok.1, trivial⟩
  | clear waits value =>
    cases moved
    exact settled.goes (.exchange waits value) own
  | exchange waits value =>
    simp only [reads] at moved
    split at moved
    case isTrue free =>
      cases moved
      refine settled.change _ (fun other _ holds => ?_) ⟨fun _ => own, trivial⟩
      rw [sound.depth_eq_zero free other] at holds
      exact absurd holds (Nat.lt_irrefl 0)
    case isFalse =>
      cases moved
      exact settled.goes _ (by cases waits <;> trivial)
  | count =>
    cases moved
    exact settled.goes .idle trivial
  | wait expected =>
    simp only at moved
    split at moved
    · cases moved
      exact settled.goes .blocked trivial
    · cases moved
      exact settled.goes (.begin true) trivial
  | uncount count =>
    simp only at moved
    split at moved
    · cases moved
      exact settled.change _ (fun _ _ _ => rfl) ⟨fun _ => (settled task).1 ok.1, trivial⟩
    · cases moved
      exact settled.goes .store trivial
  | release value =>
    simp only [reads] at moved
    split at moved
    case isTrue owned =>
      cases moved
      obtain ⟨⟨core, isValue⟩, _⟩ := ok
      have holds : 0 < (state.task task).depth := sound.depth_of_lockValue (owned.trans isValue)
      exact settled.change _
        (fun other different otherHolds => absurd (sound.eq_of_depth otherHolds holds) different)
        ⟨fun none => absurd none (Nat.lt_irrefl 0), trivial⟩
    case isFalse =>
      cases moved
      exact settled.goes .aborted trivial
  | signal =>
    simp only at moved
    split at moved
    · cases moved
      exact settled.goes .idle trivial
    · split at moved
      case isFalse => cases moved
      case isTrue =>
        cases moved
        exact Settled.goes (settled.goes .idle trivial) (.begin true) trivial

theorem step (settled : Settled state) (sound : LockSound state) {action : LockAction}
    (stays : Stays state action) (reads : ReadsOwn state action)
    (moved : state.step action = some next) : Settled next := by
  cases action with
  | call task call =>
    simp only [LockState.step] at moved
    split at moved
    case isFalse => cases moved
    case isTrue =>
      cases moved
      exact settled.goes _ (by cases call <;> trivial)
  | act task woken => exact settled.advance sound reads moved
  | migrate task core =>
    obtain ⟨idle, depth⟩ := stays
    cases moved
    refine settled.change _ (fun _ _ _ => rfl) ⟨fun holds => ?_, ?_⟩
    · exact absurd holds (by simp [depth])
    · simp only [idle]
  | resume task =>
    simp only [LockState.step] at moved
    split at moved
    case isFalse => cases moved
    case isTrue =>
      cases moved
      exact settled.goes .aborted trivial

end Settled

/-- One task at most holds the lock, no release of its owner aborts, and when nobody is inside a call
but to wait, nobody waits for a lock that is free. -/
structure Excludes (state : LockState) : Prop where
  alone : ∀ first second, 0 < (state.task first).depth → 0 < (state.task second).depth →
    first = second
  accepted : ∀ task, (state.task task).place = .aborted → (state.task task).depth = 0
  awake : (∀ task, (state.task task).place ∈ [.idle, .blocked, .aborted]) → state.lock.value = 0 →
    state.waiters = []

theorem LockSound.excludes (sound : LockSound state) : Excludes state := by
  constructor
  · exact fun _ _ => sound.eq_of_depth
  · exact fun _ aborted => sound.own aborted
  · intro quiet free
    by_contra waiting
    obtain ⟨task, active⟩ := sound.progress free waiting
    have place := quiet task
    simp only [List.mem_cons, List.not_mem_nil, or_false] at place
    rcases place with place | place | place
    all_goals
      rw [place] at active
      exact absurd active Bool.false_ne_true

theorem lockSound_of_initial (isInitial : retargetSystem.initial state) : LockSound state := by
  obtain ⟨free, nobody, idle⟩ := isInitial
  have none (task : TaskPointer) : ¬ 0 < (state.task task).depth := by
    rw [(idle task).2]
    exact Nat.lt_irrefl 0
  constructor
  · exact fun task holds => absurd holds (none task)
  · exact fun nonzero => absurd free nonzero
  · intro task
    rw [PlaceOk, (idle task).1]
    exact fun holds => absurd holds (none task)
  · intro task
    rw [nobody, (idle task).1]
    simp
  · rw [nobody]
    exact List.nodup_nil
  · exact fun _ waiting => absurd nobody waiting

/-- As long as each task reads from `expected` what it has written there, the lock excludes. -/
theorem retarget_lock_excludes
    (reached : retargetSystem.Guarded (fun state action => Stays state action ∧ ReadsOwn state action)
      state) : Excludes state := by
  have both : LockSound state ∧ Settled state := by
    refine reached.invariant (motive := fun state => LockSound state ∧ Settled state) ?_ ?_
    · intro state isInitial
      refine ⟨lockSound_of_initial isInitial, fun task => ⟨fun holds => ?_, ?_⟩⟩
      · rw [(isInitial.2.2 task).2] at holds
        exact absurd holds (Nat.lt_irrefl 0)
      · rw [(isInitial.2.2 task).1]
        trivial
    · rintro state action next ⟨sound, settled⟩ ⟨stays, reads⟩ moved
      exact ⟨sound.step reads (settled.onOwnCore action) moved, settled.step sound stays reads moved⟩
  exact both.1.excludes

def firstTask : TaskPointer where
  pointer := 4
  aligned := by decide
  nonzero := by decide

def secondTask : TaskPointer where
  pointer := 8
  aligned := by decide
  nonzero := by decide

def thirdTask : TaskPointer where
  pointer := 12
  aligned := by decide
  nonzero := by decide

theorem retarget_lock_excludes_run : ∃ state, Excludes state ∧
    (state.task firstTask).depth = 0 ∧ (state.task secondTask).depth = 1 := by
  obtain ⟨state, reached, check⟩ := @System.exists_of_run _ _ retargetSystem
    (fun state action => Stays state action ∧ ReadsOwn state action) _ {} ⟨rfl, rfl, fun _ => ⟨rfl, rfl⟩⟩
    (List.flatten [[.migrate secondTask 1, .call firstTask .acquire],
      List.replicate 5 (.act firstTask firstTask), [.call secondTask .acquire],
      List.replicate 6 (.act secondTask secondTask), [.call firstTask .release],
      List.replicate 7 (.act firstTask secondTask), List.replicate 5 (.act secondTask secondTask)])
    (fun state => (state.task firstTask).depth = 0 ∧ (state.task secondTask).depth = 1)
    (fun _ => inferInstanceAs (Decidable (_ ∧ _))) (by decide)
  exact ⟨state, retarget_lock_excludes reached, check⟩

theorem not_excludes : ¬ ∀ state, retargetSystem.Guarded Stays state → Excludes state := by
  intro always
  obtain ⟨state, reached, first, second⟩ := @System.exists_of_run _ _ retargetSystem Stays _ {}
    ⟨rfl, rfl, fun _ => ⟨rfl, rfl⟩⟩
    (List.flatten [[.call firstTask .acquire], List.replicate 5 (.act firstTask firstTask),
      [.call secondTask .acquire], List.replicate 3 (.act secondTask secondTask),
      [.call thirdTask .acquire], List.replicate 4 (.act thirdTask thirdTask),
      [.act secondTask secondTask]])
    (fun state => 0 < (state.task firstTask).depth ∧ 0 < (state.task secondTask).depth)
    (fun _ => inferInstanceAs (Decidable (_ ∧ _))) (by decide)
  have same := (always state reached).alone firstTask secondTask first second
  exact absurd same (by decide)

end

end PicoToolkit.Retarget
