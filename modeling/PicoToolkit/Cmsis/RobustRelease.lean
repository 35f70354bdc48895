import PicoToolkit.Cmsis.RobustMutex

/-!
The batches in which `osReleaseRobustMutex` captures the mutexes of a thread, and when it releases them all.
-/

namespace PicoToolkit

open Ring Tag Transition

variable {cores : Nat} [NeZero cores] {contexts : Word → Word} {core : Fin cores}
  {registry : List RtosMutex} {thread : OwnerThread} {state next : State Links cores}

/-- Of the registered mutexes before the last one, fewer than a batch are owned by the thread. -/
def FitsCapture (registry : List RtosMutex) (thread : OwnerThread) (state : State Links cores) : Prop :=
  registry.dropLast.countP (thread.owns state) < 5

structure Released (contexts : Word → Word) (registry : List RtosMutex) (thread : OwnerThread)
    (state next : State Links cores) : Prop where
  free : ∀ mutex ∈ registry, osMutexGetOwner contexts mutex next ≠ .returns thread.address
  handed : ∀ mutex ∈ registry, osMutexGetOwner contexts mutex state = .returns thread.address →
    ∀ first rest, state.queue (.waiters mutex.lock.futex) = first :: rest →
      untag (next.memory mutex.lock.value) = first ∧
        first ∉ next.queue (.waiters mutex.lock.futex) ∧
        ∀ other ∈ rest, (state.task first).currentPriority ≤ (state.task other).currentPriority
  alone : ∀ mutex ∈ registry, osMutexGetOwner contexts mutex state = .returns thread.address →
    state.queue (.waiters mutex.lock.futex) = [] → next.memory mutex.lock.value = 0
  others : ∀ mutex ∈ registry, osMutexGetOwner contexts mutex state ≠ .returns thread.address →
    next.memory mutex.lock.value = state.memory mutex.lock.value ∧
      next.memory mutex.lock.count = state.memory mutex.lock.count ∧
      next.queue (.waiters mutex.lock.futex) = state.queue (.waiters mutex.lock.futex)

theorem RobustSet.owned_iff (set : RobustSet contexts core registry thread state) {mutex : RtosMutex}
    (member : mutex ∈ registry) :
    osMutexGetOwner contexts mutex state = .returns thread.address ↔ thread.owns state mutex := by
  obtain ⟨owner, gets, isOwner⟩ := set.getOwner member
  rw [gets, Ending.returns.injEq]
  exact isOwner

section Capture

variable {captured : List RtosMutex} {mutexes : List RtosMutex}

theorem RobustSet.capture (set : RobustSet contexts core registry thread state) {mutex : RtosMutex}
    (member : mutex ∈ registry) (room : captured.length < 5) :
    osCaptureOwnedRobustMutexes contexts state mutex ⟨thread.address, 5, captured⟩ =
      .returns (OsStatus.osOK.code,
        ⟨thread.address, 5, captured ++ [mutex].filter (thread.owns state)⟩) := by
  obtain ⟨owner, gets, isOwner⟩ := set.getOwner member
  rw [osCaptureOwnedRobustMutexes, if_pos room, gets, Ending.returns_bind]
  cases owned : thread.owns state mutex with
  | false =>
      rw [if_neg fun same => Bool.false_ne_true (owned.symm.trans (isOwner.mp same)),
        List.filter_cons_of_neg (by simp [owned]), List.filter_nil, List.append_nil]
  | true => rw [if_pos (isOwner.mpr owned), List.filter_cons_of_pos owned, List.filter_nil]

theorem countP_dropLast {owned : RtosMutex → Bool} {mutex second : RtosMutex} {rest : List RtosMutex} :
    (mutex :: second :: rest).dropLast.countP owned =
      ([mutex].filter owned).length + (second :: rest).dropLast.countP owned := by
  rw [List.dropLast_cons_cons, List.countP_cons, List.filter_cons, List.filter_nil]
  cases owned mutex with
  | false => simp only [Bool.false_eq_true, if_false, List.length_nil, Nat.zero_add, Nat.add_zero]
  | true =>
      simp only [if_true, List.length_cons, List.length_nil]
      omega

theorem RobustSet.forEach_fits (set : RobustSet contexts core registry thread state)
    (members : ∀ mutex ∈ mutexes, mutex ∈ registry)
    (fits : mutexes = [] ∨ captured.length + mutexes.dropLast.countP (thread.owns state) < 5) :
    osKernelResourceForEach (osCaptureOwnedRobustMutexes contexts state) mutexes
        ⟨thread.address, 5, captured⟩ =
      .returns (OsStatus.osOK.code,
        ⟨thread.address, 5, captured ++ mutexes.filter (thread.owns state)⟩) := by
  induction mutexes generalizing captured with
  | nil => rw [osKernelResourceForEach, List.filter_nil, List.append_nil]
  | cons mutex rest ih =>
      obtain none_ | fits := fits
      · cases none_
      have room : captured.length < 5 := by omega
      rw [osKernelResourceForEach, set.capture (members mutex List.mem_cons_self) room,
        Ending.returns_bind]
      simp only [ne_eq, not_true_eq_false, if_false]
      rw [ih (fun other member => members other (List.mem_cons_of_mem _ member)) ?_,
        List.append_assoc, ← List.filter_append, List.singleton_append]
      cases rest with
      | nil => exact Or.inl rfl
      | cons second rest =>
          rw [countP_dropLast] at fits
          rw [List.length_append]
          exact Or.inr (by omega)

theorem RobustSet.forEach_full (set : RobustSet contexts core registry thread state)
    (members : ∀ mutex ∈ mutexes, mutex ∈ registry) (more : mutexes ≠ [])
    (full : 5 ≤ captured.length + mutexes.dropLast.countP (thread.owns state)) :
    ∃ capture, osKernelResourceForEach (osCaptureOwnedRobustMutexes contexts state) mutexes
      ⟨thread.address, 5, captured⟩ = .returns (1, capture) := by
  induction mutexes generalizing captured with
  | nil => exact (more rfl).elim
  | cons mutex rest ih =>
      rw [osKernelResourceForEach]
      by_cases room : captured.length < 5
      · rw [set.capture (members mutex List.mem_cons_self) room, Ending.returns_bind]
        simp only [ne_eq, not_true_eq_false, if_false]
        cases rest with
        | nil =>
            simp only [List.dropLast_singleton, List.countP_nil] at full
            omega
        | cons second rest =>
            rw [countP_dropLast] at full
            refine ih (fun other member => members other (List.mem_cons_of_mem _ member)) nofun ?_
            rw [List.length_append]
            omega
      · refine ⟨⟨thread.address, 5, captured⟩, ?_⟩
        rw [osCaptureOwnedRobustMutexes, if_neg room, Ending.returns_bind]
        exact if_pos (by decide)

end Capture

omit [NeZero cores] in
theorem HandedOver.congr {mutex : RtosMutex} {before after : State Links cores}
    (handed : HandedOver mutex before after)
    (waitersBefore : before.view.waiters mutex.lock.futex = state.view.waiters mutex.lock.futex)
    (value : next.memory mutex.lock.value = after.memory mutex.lock.value)
    (waiters : next.view.waiters mutex.lock.futex = after.view.waiters mutex.lock.futex) :
    HandedOver mutex state next := by
  rw [HandedOver, waitersBefore] at handed
  rw [HandedOver, waiters, value]
  exact handed

theorem RobustSet.releaseCaptured_returns {captured : List RtosMutex}
    (set : RobustSet contexts core registry thread state)
    (members : ∀ mutex ∈ captured, mutex ∈ registry) (distinct : captured.Nodup)
    (owned : ∀ mutex ∈ captured, thread.owns state mutex) :
    ∃ next, (∀ fuel, releaseCaptured contexts core thread (fuel + 3) captured state =
        .returns (.osOK, next)) ∧
      RobustSet contexts core registry thread next ∧
      (∀ mutex ∈ captured, thread.owns next mutex = false ∧ HandedOver mutex state next) ∧
      ∀ mutex ∈ registry, mutex ∉ captured →
        next.memory mutex.lock.value = state.memory mutex.lock.value ∧
          next.memory mutex.lock.count = state.memory mutex.lock.count ∧
          next.view.waiters mutex.lock.futex = state.view.waiters mutex.lock.futex := by
  induction captured generalizing state with
  | nil => exact ⟨state, fun _ => rfl, set, nofun, fun _ _ _ => ⟨rfl, rfl, rfl⟩⟩
  | cons mutex rest ih =>
      obtain ⟨notLater, distinct⟩ := List.nodup_cons.mp distinct
      obtain ⟨middle, releases, setMiddle, free, handed, spares⟩ :=
        set.releaseOwned_returns (members mutex List.mem_cons_self) (owned mutex List.mem_cons_self)
      have later : ∀ other ∈ rest, other ∈ registry ∧ other ≠ mutex := fun other member =>
        ⟨members other (List.mem_cons_of_mem _ member), fun same => notLater (same ▸ member)⟩
      obtain ⟨next, releasesRest, setNext, released, spared⟩ := ih setMiddle
        (fun other member => (later other member).1) distinct (by
          intro other member
          rw [OwnerThread.owns, (spares other (later other member).1 (later other member).2).1]
          exact owned other (List.mem_cons_of_mem _ member))
      obtain ⟨value, _, waiters⟩ := spared mutex (members mutex List.mem_cons_self) notLater
      refine ⟨next, fun fuel => ?_, setNext, ?_, ?_⟩
      · rw [releaseCaptured, releases, Ending.returns_bind]
        exact releasesRest fuel
      · intro other member
        rcases List.mem_cons.mp member with same | inRest
        · subst same
          refine ⟨?_, handed.congr rfl value waiters⟩
          rw [OwnerThread.owns, value]
          exact free
        · obtain ⟨freeOther, handedOther⟩ := released other inRest
          refine ⟨freeOther, handedOther.congr ?_ rfl rfl⟩
          exact (spares other (later other inRest).1 (later other inRest).2).2.2
      · intro other member absent
        obtain ⟨notFirst, notRest⟩ := not_or.mp (List.mem_cons.not.mp absent)
        obtain ⟨valueFirst, countFirst, waitersFirst⟩ := spares other member notFirst
        obtain ⟨valueRest, countRest, waitersRest⟩ := spared other member notRest
        exact ⟨valueRest.trans valueFirst, countRest.trans countFirst, waitersRest.trans waitersFirst⟩

theorem RobustSet.noMore (set : RobustSet contexts core registry thread state)
    (free : ∀ mutex ∈ registry, thread.owns state mutex = false) (fuel : Nat) :
    osReleaseRobustMutex contexts core registry thread (fuel + 1) state = .returns (.osOK, state) := by
  have none_ : registry.filter (thread.owns state) = [] :=
    List.filter_eq_nil_iff.mpr fun mutex member => by simp [free mutex member]
  have captures := @RobustSet.forEach_fits _ _ _ _ _ _ _ [] registry set (fun _ => id) (by
    have fewer : registry.dropLast.countP (thread.owns state) = 0 :=
      List.countP_eq_zero.mpr fun mutex member => by simp [free mutex (List.mem_of_mem_dropLast member)]
    rw [fewer]
    exact Or.inr (by decide))
  rw [osReleaseRobustMutex, captures, none_, Ending.returns_bind]
  rfl

/-- If fewer than a batch of the mutexes before the last one belong to the thread, all are released. -/
theorem RobustSet.releases (set : RobustSet contexts core registry thread state)
    (fits : FitsCapture registry thread state) :
    ∃ next, (∀ fuel, osReleaseRobustMutex contexts core registry thread (fuel + 4) state =
        .returns (.osOK, next)) ∧ Released contexts registry thread state next := by
  have captures := @RobustSet.forEach_fits _ _ _ _ _ _ _ [] registry set (fun _ => id)
    (Or.inr ((Nat.zero_add _).symm ▸ fits))
  have distinct : (registry.filter (thread.owns state)).Nodup :=
    (List.Nodup.of_map _ set.values).filter _
  obtain ⟨next, releases, setNext, released, spared⟩ := set.releaseCaptured_returns
    (fun mutex member => List.mem_of_mem_filter member) distinct
    fun mutex member => (List.mem_filter.mp member).2
  have kept : ∀ mutex ∈ registry, thread.owns state mutex = false →
      mutex ∉ registry.filter (thread.owns state) := by
    intro mutex _ free member
    rw [(List.mem_filter.mp member).2] at free
    cases free
  have free : ∀ mutex ∈ registry, thread.owns next mutex = false := by
    intro mutex member
    cases owned : thread.owns state mutex with
    | true => exact (released mutex (List.mem_filter.mpr ⟨member, owned⟩)).1
    | false =>
        rw [OwnerThread.owns, (spared mutex member (kept mutex member owned)).1]
        exact owned
  refine ⟨next, fun fuel => ?_, ?_, ?_, ?_, ?_⟩
  · rw [osReleaseRobustMutex, captures, Ending.returns_bind]
    simp only [ne_eq, not_true_eq_false, if_false, List.nil_append, releases, Ending.returns_bind]
    split
    · exact setNext.noMore free _
    · rfl
  · intro mutex member gets
    have owned := (setNext.owned_iff member).mp gets
    rw [free mutex member] at owned
    cases owned
  · intro mutex member gets first rest queue
    have owned := (set.owned_iff member).mp gets
    obtain ⟨_, handed⟩ := released mutex (List.mem_filter.mpr ⟨member, owned⟩)
    have waiters : state.view.waiters mutex.lock.futex = first :: rest := queue
    rw [HandedOver, waiters] at handed
    have sorted := (ordered_of_reachable set.reached).sorted mutex.lock.futex
    rw [waiters] at sorted
    exact ⟨handed.1, handed.2, (List.pairwise_cons.mp sorted).1⟩
  · intro mutex member gets queue
    have owned := (set.owned_iff member).mp gets
    obtain ⟨_, handed⟩ := released mutex (List.mem_filter.mpr ⟨member, owned⟩)
    have waiters : state.view.waiters mutex.lock.futex = [] := queue
    rw [HandedOver, waiters] at handed
    exact handed
  · intro mutex member other
    have free : thread.owns state mutex = false :=
      Bool.eq_false_of_not_eq_true fun owned => other ((set.owned_iff member).mpr owned)
    exact spared mutex member (kept mutex member free)

theorem RobustSet.aborts (set : RobustSet contexts core registry thread state)
    (full : ¬FitsCapture registry thread state) (fuel : Nat) :
    osReleaseRobustMutex contexts core registry thread (fuel + 1) state = .aborts := by
  have five : 5 ≤ registry.dropLast.countP (thread.owns state) := Nat.le_of_not_lt full
  have more : registry ≠ [] := by
    rintro rfl
    simp at five
  obtain ⟨capture, captures⟩ := @RobustSet.forEach_full _ _ _ _ _ _ _ [] registry set (fun _ => id) more
    ((Nat.zero_add _).symm ▸ five)
  rw [osReleaseRobustMutex, captures, Ending.returns_bind]
  exact if_pos (by decide)

/-- `osReleaseRobustMutex` returns `osOK` with all mutexes of the thread released exactly if fewer than five
of those before the last registered one belong to it. -/
theorem released_iff (set : RobustSet contexts core registry thread state) :
    (∃ next, (∀ fuel, osReleaseRobustMutex contexts core registry thread (fuel + 4) state =
        .returns (.osOK, next)) ∧ Released contexts registry thread state next) ↔
      FitsCapture registry thread state := by
  constructor
  · rintro ⟨next, returns, _⟩
    by_contra full
    have aborts := set.aborts full 3
    rw [returns 0] at aborts
    cases aborts
  · exact set.releases

def OwnersAt (registry : List RtosMutex) (thread : OwnerThread) (state : State Links cores) (index : Nat)
    (owners : List (Option Nat)) : Prop :=
  List.Forall₂ (fun owner mutex => owner = some index ↔ thread.owns state mutex = true) owners registry

omit [NeZero cores] in
theorem OwnersAt.fitsCapture_iff {threads : ThreadsState} {index : Nat}
    (owners : OwnersAt registry thread state index threads.robust) :
    threads.fitsCapture index = true ↔ FitsCapture registry thread state := by
  have same : ∀ {owners : List (Option Nat)} {mutexes : List RtosMutex},
      OwnersAt mutexes thread state index owners →
      owners.dropLast.count (some index) = mutexes.dropLast.countP (thread.owns state) := by
    intro owners mutexes each
    induction each with
    | nil => rfl
    | @cons owner mutex owners mutexes first rest ih =>
        cases rest with
        | nil => rfl
        | cons second rest =>
            rw [List.dropLast_cons_cons, List.dropLast_cons_cons, List.count_cons, List.countP_cons, ih]
            congr 1
            simp only [beq_iff_eq, first]
  rw [ThreadsState.fitsCapture, decide_eq_true_iff, same owners, FitsCapture]

/-- The reaper and the joiners go on where the function returns `osOK`, and abort where it does. -/
theorem RobustSet.fitsCapture (set : RobustSet contexts core registry thread state)
    {threads : ThreadsState} {index : Nat}
    (owners : OwnersAt registry thread state index threads.robust) :
    (threads.fitsCapture index = true → ∃ next, ∀ fuel,
      osReleaseRobustMutex contexts core registry thread (fuel + 4) state = .returns (.osOK, next)) ∧
    (threads.fitsCapture index = false → ∀ fuel,
      osReleaseRobustMutex contexts core registry thread (fuel + 1) state = .aborts) := by
  constructor
  · intro fits
    obtain ⟨next, returns, _⟩ := set.releases (owners.fitsCapture_iff.mp fits)
    exact ⟨next, returns⟩
  · intro full
    refine set.aborts fun fits => ?_
    cases full.symm.trans (owners.fitsCapture_iff.mpr fits)

section Runs

def robustMutex (index : Nat) : RtosMutex where
  lock :=
    { value := 0x10000 + 0x10 * BitVec.ofNat 32 index
      count := 0x10004 + 0x10 * BitVec.ofNat 32 index
      futex := 0x10008 + 0x10 * BitVec.ofNat 32 index
      recursive := false }

def robustOwner : OwnerThread := { address := 0x500, stack := 0x2000 }

def robustContexts (task : Word) : Word := if task = 0x2000 then 0x500 else 0

instance (registry : List RtosMutex) (thread : OwnerThread) (state : State Links 1) :
    Decidable (FitsCapture registry thread state) :=
  inferInstanceAs (Decidable (_ < _))

def RobustCheck (registry : List RtosMutex) (state : State Links 1) : Prop :=
  state.inThread 0 = true ∧ 0x2000 ∉ state.view.tasks ∧
    (registry.map fun mutex => mutex.lock.value).Nodup ∧
    (registry.map fun mutex => mutex.lock.count).Nodup ∧
    (registry.map fun mutex => mutex.lock.futex).Nodup ∧
    ∀ mutex ∈ registry, (∀ other ∈ registry, mutex.lock.value ≠ other.lock.count) ∧
      mutex.marker = rtosMutexMarker ∧
      ((state.futex mutex.lock.futex).value = mutex.lock.value ∧
        (state.futex mutex.lock.futex).flags =
          schedulerFutexOwnerTracking ||| schedulerFutexContentionTracking ∧
        (state.futex mutex.lock.futex).marker = true) ∧
      (state.memory mutex.lock.value = 0 ∨ untag (state.memory mutex.lock.value) ≠ 0 ∧
        (state.task (untag (state.memory mutex.lock.value))).marker = true) ∧
      ∀ task ∈ state.queue (.waiters mutex.lock.futex), (state.task task).marker = true ∧
        state.memory mutex.lock.value = tag (untag (state.memory mutex.lock.value))

instance (registry : List RtosMutex) (state : State Links 1) : Decidable (RobustCheck registry state) := by
  unfold RobustCheck
  exact inferInstance

theorem robustSet_of_check {registry : List RtosMutex} {state : State Links 1}
    (reached : (scheduler 1).Guarded
      (fun state action => (event state action).withoutPi = true) state)
    (checked : RobustCheck registry state) :
    RobustSet robustContexts 0 registry robustOwner state := by
  obtain ⟨runs, terminated, values, counts, futexes, each⟩ := checked
  refine ⟨reached.reachable, runs, ⟨fun _ => [], ?_⟩, ⟨by decide, by decide, by decide⟩, by decide, ?_, terminated,
    values, counts, futexes, fun mutex member => (each mutex member).1, ?_, ?_, ?_, ?_⟩
  · rw [owned_of_withoutPi reached]
    exact Links.empty_represents
  · intro task
    rw [robustContexts]
    constructor
    · intro isOwner
      by_contra other
      have stranger : task ≠ 0x2000 := other
      rw [if_neg stranger] at isOwner
      exact absurd isOwner (by decide)
    · exact fun same => if_pos same
  · intro mutex member
    rw [(each mutex member).2.1]
    decide
  · intro mutex member
    obtain ⟨value, flags, marker⟩ := (each mutex member).2.2.1
    refine ⟨false, ?_⟩
    cases entry : state.futex mutex.lock.futex with
    | mk _ _ _ =>
        rw [entry] at value flags marker
        rw [RtosMutex.entry]
        simp only at value flags marker
        rw [value, flags, marker]
        rfl
  · exact fun mutex member locked => (each mutex member).2.2.2.1.resolve_left locked
  · exact fun mutex member => (each mutex member).2.2.2.2

def robustSetup (count : Nat) : List (Action 1) :=
  [.create 0 0x1000 { flags := schedulerPrimordialTask, priority := 32 },
    .create 0 0x2000 { priority := 31 }, .create 0 0x3000 { priority := 31 }] ++
  (List.range count).map (fun index =>
    .futexInit (robustMutex index).lock.futex (robustMutex index).lock.value
      (schedulerFutexOwnerTracking ||| schedulerFutexContentionTracking)) ++
  .start 0 :: switchPass

theorem released_iff_contended : ∃ state next : State Links 1,
    (∀ fuel, osReleaseRobustMutex robustContexts 0 [robustMutex 0, robustMutex 1] robustOwner (fuel + 4)
      state = .returns (.osOK, next)) ∧
    untag (next.memory (robustMutex 0).lock.value) = 0x3000 := by
  obtain ⟨state, reached, checked, fits, owned, queue⟩ := System.exists_of_run
    (fun state action => (event state action).withoutPi = true) (initial_bootState 1)
    (List.flatten [robustSetup 2, [.store 0x10000 0x2000, .yield 0], switchPass,
      [.store 0x10010 0x3000, .futexWait 0 0x10008 0x2000 schedulerWaitForever], switchPass,
      .terminate 0 0x2000 :: switchPass])
    (fun state => RobustCheck [robustMutex 0, robustMutex 1] state ∧
      FitsCapture [robustMutex 0, robustMutex 1] robustOwner state ∧
      robustOwner.owns state (robustMutex 0) ∧
      state.queue (.waiters (robustMutex 0).lock.futex) = [0x3000]) (by decide)
  have set := robustSet_of_check reached checked
  obtain ⟨next, returns, released⟩ := (released_iff set).mpr fits
  have isOwner := (set.owned_iff List.mem_cons_self).mpr owned
  exact ⟨state, next, returns, (released.handed _ List.mem_cons_self isOwner _ _ queue).1⟩

theorem not_released : ∃ state : State Links 1,
    RobustSet robustContexts 0 ((List.range 6).map robustMutex) robustOwner state ∧
    ∀ fuel, osReleaseRobustMutex robustContexts 0 ((List.range 6).map robustMutex) robustOwner (fuel + 1)
      state = .aborts := by
  obtain ⟨state, reached, checked, full⟩ := System.exists_of_run
    (fun state action => (event state action).withoutPi = true) (initial_bootState 1)
    (robustSetup 6 ++
      (List.range 6).map (fun index => .store (robustMutex index).lock.value 0x2000) ++
      .terminate 0 0x2000 :: switchPass)
    (fun state => RobustCheck ((List.range 6).map robustMutex) state ∧
      ¬FitsCapture ((List.range 6).map robustMutex) robustOwner state) (by decide)
  have set := robustSet_of_check reached checked
  exact ⟨state, set, set.aborts full⟩

end Runs

end PicoToolkit
