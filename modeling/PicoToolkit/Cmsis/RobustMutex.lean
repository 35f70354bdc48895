import PicoToolkit.Cmsis.Mutex
import PicoToolkit.Cmsis.Threads
import PicoToolkit.Futex.Tracked

/-!
Robust mutexes: what the clean-up after a thread does with those that the thread still owns.
-/

namespace PicoToolkit

open Ring Tag Transition

/-- How a function ends: it returns, or the program aborts, or the fuel does not suffice. -/
inductive Ending (Value : Type) where
  | returns (value : Value)
  | aborts
  | unfinished

def Ending.bind {Value Other : Type} (ending : Ending Value) (next : Value → Ending Other) :
    Ending Other :=
  match ending with
  | .returns value => next value
  | .aborts => .aborts
  | .unfinished => .unfinished

@[simp]
theorem Ending.returns_bind {Value Other : Type} (value : Value) (next : Value → Ending Other) :
    (Ending.returns value).bind next = next value := rfl

@[simp]
theorem Ending.aborts_bind {Value Other : Type} (next : Value → Ending Other) :
    (Ending.aborts : Ending Value).bind next = .aborts := rfl

/-- `struct rtos_thread` of the thread that is cleaned up after, as far as its mutexes go. -/
structure OwnerThread where
  address : Word
  marker : Word := rtosThreadMarker
  stack : Word

structure RobustMutexCapture where
  thread : Word
  size : Nat
  mutexes : List RtosMutex

section Functions

variable {cores : Nat} [NeZero cores] (contexts : Word → Word)

/-- `contexts` tells the `context` in the control block of each task. -/
def osMutexGetOwner (mutex : RtosMutex) (state : State Links cores) : Ending Word :=
  if osIsResourceValid mutex.marker rtosMutexMarker ≠ .osOK then .returns 0
  else
    let value := state.memory mutex.lock.value
    if value = 0 then .returns 0
    else if (state.task (untag value)).marker then .returns (contexts (untag value))
    else .aborts

variable (core : Fin cores)

def osMutexRobustRelease (mutex : RtosMutex) (owner : OwnerThread) (state : State Links cores) :
    Ending (OsStatus × State Links cores) :=
  if osIsResourceValid mutex.marker rtosMutexMarker ≠ .osOK then
    .returns (osIsResourceValid mutex.marker rtosMutexMarker, state)
  else if osIsResourceValid owner.marker rtosThreadMarker ≠ .osOK then
    .returns (osIsResourceValid owner.marker rtosThreadMarker, state)
  else
    (osMutexGetOwner contexts mutex state).bind fun found =>
      if found ≠ owner.address then .returns (.osErrorResource, state)
      else
        let state := if mutex.lock.recursive then state.setMemory mutex.lock.count 0 else state
        if state.memory mutex.lock.value = owner.stack then
          .returns (.osOK, state.setMemory mutex.lock.value 0)
        else
          match step state (.futexWake core mutex.lock.futex false) with
          | none => .aborts
          | some next => .returns (.osOK, next)

/-- The callback is given the resources one after the other, until it returns another status than
`osOK`. -/
def osKernelResourceForEach {Resource Context : Type}
    (func : Resource → Context → Ending (Word × Context)) :
    List Resource → Context → Ending (Word × Context)
  | [], context => .returns (OsStatus.osOK.code, context)
  | resource :: rest, context =>
      (func resource context).bind fun (status, context) =>
        if status ≠ OsStatus.osOK.code then .returns (status, context)
        else osKernelResourceForEach func rest context

def osCaptureOwnedRobustMutexes (state : State Links cores) (resource : RtosMutex)
    (capture : RobustMutexCapture) : Ending (Word × RobustMutexCapture) :=
  if capture.mutexes.length < capture.size then
    (osMutexGetOwner contexts resource state).bind fun owner =>
      .returns (OsStatus.osOK.code,
        if owner = capture.thread then { capture with mutexes := capture.mutexes ++ [resource] }
        else capture)
  else .returns (1, capture)

/-- The inner loop of `osReleaseRobustMutex`, for one captured mutex. -/
def releaseOwned (mutex : RtosMutex) (thread : OwnerThread) :
    Nat → State Links cores → Ending (OsStatus × State Links cores)
  | 0, _ => .unfinished
  | fuel + 1, state =>
      (osMutexGetOwner contexts mutex state).bind fun owner =>
        if owner = thread.address then
          (osMutexRobustRelease contexts core mutex thread state).bind fun (status, state) =>
            if status ≠ .osOK then .returns (status, state) else releaseOwned mutex thread fuel state
        else .returns (.osOK, state)

def releaseCaptured (thread : OwnerThread) (fuel : Nat) :
    List RtosMutex → State Links cores → Ending (OsStatus × State Links cores)
  | [], state => .returns (.osOK, state)
  | mutex :: rest, state =>
      (releaseOwned contexts core mutex thread fuel state).bind fun (status, state) =>
        if status ≠ .osOK then .returns (status, state) else releaseCaptured thread fuel rest state

/-- `registry` holds the registered robust mutexes, in order. -/
def osReleaseRobustMutex (registry : List RtosMutex) (thread : OwnerThread) :
    Nat → State Links cores → Ending (OsStatus × State Links cores)
  | 0, _ => .unfinished
  | fuel + 1, state =>
      (osKernelResourceForEach (osCaptureOwnedRobustMutexes contexts state) registry
        { thread := thread.address, size := 5, mutexes := [] }).bind fun (status, capture) =>
        if status ≠ OsStatus.osOK.code then .aborts
        else
          (releaseCaptured contexts core thread fuel capture.mutexes state).bind fun (status, state) =>
            if status ≠ .osOK then .returns (status, state)
            else if capture.mutexes.length = capture.size then
              osReleaseRobustMutex registry thread fuel state
            else .returns (.osOK, state)

end Functions

def RtosMutex.entry (mutex : RtosMutex) (inherits : Bool) : Futex where
  value := mutex.lock.value
  flags :=
    if inherits then
      schedulerFutexPi ||| schedulerFutexOwnerTracking ||| schedulerFutexContentionTracking
    else schedulerFutexOwnerTracking ||| schedulerFutexContentionTracking
  marker := true

section Wellformed

variable {cores : Nat} [NeZero cores]

/-- Registered robust mutexes, and a terminated thread that may own some of them: each mutex is set up as
`osMutexNew` does it, in memory of its own; its word is tagged while tasks wait for it, and names a valid
task while it is locked. -/
structure RobustSet (contexts : Word → Word) (core : Fin cores) (registry : List RtosMutex)
    (thread : OwnerThread) (state : State Links cores) : Prop where
  reached : (scheduler cores).Reachable state
  runs : state.inThread core
  rings : ∃ lists, state.ownedFutexes.Represents lists
  address : thread.address ≠ 0 ∧ thread.stack ≠ 0 ∧ Untagged thread.stack
  marker : osIsResourceValid thread.marker rtosThreadMarker = .osOK
  own : ∀ task, contexts task = thread.address ↔ task = thread.stack
  terminated : thread.stack ∉ state.view.tasks
  values : (registry.map fun mutex => mutex.lock.value).Nodup
  counts : (registry.map fun mutex => mutex.lock.count).Nodup
  futexes : (registry.map fun mutex => mutex.lock.futex).Nodup
  apart : ∀ mutex ∈ registry, ∀ other ∈ registry, mutex.lock.value ≠ other.lock.count
  valid : ∀ mutex ∈ registry, osIsResourceValid mutex.marker rtosMutexMarker = .osOK
  entry : ∀ mutex ∈ registry, ∃ inherits, state.futex mutex.lock.futex = mutex.entry inherits
  owner : ∀ mutex ∈ registry, state.memory mutex.lock.value ≠ 0 →
    untag (state.memory mutex.lock.value) ≠ 0 ∧
      (state.task (untag (state.memory mutex.lock.value))).marker
  contended : ∀ mutex ∈ registry, ∀ task, state.view.Waits task mutex.lock.futex →
    (state.task task).marker ∧
      state.memory mutex.lock.value = tag (untag (state.memory mutex.lock.value))

def OwnerThread.owns (thread : OwnerThread) (state : State Links cores) (mutex : RtosMutex) : Bool :=
  decide (untag (state.memory mutex.lock.value) = thread.stack)

def Spares (registry : List RtosMutex) (mutex : RtosMutex) (state next : State Links cores) : Prop :=
  ∀ other ∈ registry, other ≠ mutex →
    next.memory other.lock.value = state.memory other.lock.value ∧
      next.memory other.lock.count = state.memory other.lock.count ∧
      next.view.waiters other.lock.futex = state.view.waiters other.lock.futex

def HandedOver (mutex : RtosMutex) (state next : State Links cores) : Prop :=
  match state.view.waiters mutex.lock.futex with
  | [] => next.memory mutex.lock.value = 0
  | first :: _ => untag (next.memory mutex.lock.value) = first ∧
      first ∉ next.view.waiters mutex.lock.futex

variable {contexts : Word → Word} {core : Fin cores} {registry : List RtosMutex}
  {thread : OwnerThread} {state next : State Links cores} {mutex other : RtosMutex}

namespace RobustSet

theorem value_ne (set : RobustSet contexts core registry thread state) (member : mutex ∈ registry)
    (memberOther : other ∈ registry) (different : other ≠ mutex) :
    other.lock.value ≠ mutex.lock.value :=
  fun same => different (List.inj_on_of_nodup_map set.values memberOther member same)

theorem count_ne (set : RobustSet contexts core registry thread state) (member : mutex ∈ registry)
    (memberOther : other ∈ registry) (different : other ≠ mutex) :
    other.lock.count ≠ mutex.lock.count :=
  fun same => different (List.inj_on_of_nodup_map set.counts memberOther member same)

theorem futex_ne (set : RobustSet contexts core registry thread state) (member : mutex ∈ registry)
    (memberOther : other ∈ registry) (different : other ≠ mutex) :
    other.lock.futex ≠ mutex.lock.futex :=
  fun same => different (List.inj_on_of_nodup_map set.futexes memberOther member same)

theorem idle (set : RobustSet contexts core registry thread state) (futex : Word) :
    ¬state.view.Waits thread.stack futex :=
  fun waits => set.terminated ((ordered_of_reachable set.reached).listed _ _ waits)

theorem getOwner (set : RobustSet contexts core registry thread state) (member : mutex ∈ registry) :
    ∃ owner, osMutexGetOwner contexts mutex state = .returns owner ∧
      (owner = thread.address ↔ thread.owns state mutex) := by
  have valid := set.valid mutex member
  simp only [osMutexGetOwner, valid, ne_eq, not_true_eq_false, if_false, OwnerThread.owns,
    decide_eq_true_eq]
  by_cases free : state.memory mutex.lock.value = 0
  · refine ⟨0, if_pos free, ?_⟩
    rw [free]
    constructor
    · exact fun none_ => (set.address.1 none_.symm).elim
    · intro none_
      rw [untagged_zero] at none_
      exact (set.address.2.1 none_.symm).elim
  · have marked := (set.owner mutex member free).2
    exact ⟨_, by rw [if_neg free, if_pos marked], set.own _⟩

/-- A change that leaves the tasks, the futexes and the rings in order keeps the mutexes so, if it does for
their words and waiters. -/
theorem change (set : RobustSet contexts core registry thread state)
    (reached : (scheduler cores).Reachable next) (runs : next.inThread core = state.inThread core)
    (rings : ∃ lists, next.ownedFutexes.Represents lists) (tasks : next.view.tasks = state.view.tasks)
    (futexes : next.futex = state.futex)
    (markers : ∀ task, (next.task task).marker = (state.task task).marker)
    (owner : ∀ mutex ∈ registry, next.memory mutex.lock.value ≠ 0 →
      untag (next.memory mutex.lock.value) ≠ 0 ∧
        (state.task (untag (next.memory mutex.lock.value))).marker)
    (contended : ∀ mutex ∈ registry, ∀ task, next.view.Waits task mutex.lock.futex →
      state.view.Waits task mutex.lock.futex ∧
        next.memory mutex.lock.value = tag (untag (next.memory mutex.lock.value))) :
    RobustSet contexts core registry thread next where
  reached := reached
  runs := runs.trans set.runs
  rings := rings
  address := set.address
  marker := set.marker
  own := set.own
  terminated := tasks ▸ set.terminated
  values := set.values
  counts := set.counts
  futexes := set.futexes
  apart := set.apart
  valid := set.valid
  entry := futexes ▸ set.entry
  owner mutex member locked := by
    rw [markers]
    exact owner mutex member locked
  contended mutex member task waits := by
    obtain ⟨before, tagged⟩ := contended mutex member task waits
    rw [markers]
    exact ⟨(set.contended mutex member task before).1, tagged⟩

theorem setCount (set : RobustSet contexts core registry thread state) (member : mutex ∈ registry)
    (count : Word) :
    RobustSet contexts core registry thread (state.setMemory mutex.lock.count count) := by
  have stored : (scheduler cores).step state (.store mutex.lock.count count) =
      some (state.setMemory mutex.lock.count count) := rfl
  have same : ∀ other ∈ registry, (state.setMemory mutex.lock.count count).memory other.lock.value =
      state.memory other.lock.value :=
    fun other memberOther => Function.update_of_ne (set.apart other memberOther mutex member) _ _
  refine set.change (set.reached.step stored) rfl set.rings rfl rfl (fun _ => rfl) ?_ ?_
  · intro other memberOther locked
    rw [same other memberOther] at locked ⊢
    exact set.owner other memberOther locked
  · intro other memberOther task waits
    rw [same other memberOther]
    exact ⟨waits, (set.contended other memberOther task waits).2⟩

theorem setFree (set : RobustSet contexts core registry thread state) (member : mutex ∈ registry)
    (alone : state.view.waiters mutex.lock.futex = []) :
    RobustSet contexts core registry thread (state.setMemory mutex.lock.value 0) := by
  have stored : (scheduler cores).step state (.store mutex.lock.value 0) =
      some (state.setMemory mutex.lock.value 0) := rfl
  have same : ∀ other ∈ registry, other ≠ mutex →
      (state.setMemory mutex.lock.value 0).memory other.lock.value = state.memory other.lock.value :=
    fun other memberOther different =>
      Function.update_of_ne (set.value_ne member memberOther different) _ _
  refine set.change (set.reached.step stored) rfl set.rings rfl rfl (fun _ => rfl) ?_ ?_
  · intro other memberOther locked
    by_cases own : other = mutex
    · rw [own] at locked
      exact (locked (Function.update_self ..)).elim
    · rw [same other memberOther own] at locked ⊢
      exact set.owner other memberOther locked
  · intro other memberOther task waits
    by_cases own : other = mutex
    · have none_ : task ∈ state.view.waiters mutex.lock.futex := own ▸ waits
      rw [alone] at none_
      cases none_
    · rw [same other memberOther own]
      exact ⟨waits, (set.contended other memberOther task waits).2⟩

omit [NeZero cores] in
theorem tracks_entry (mutex : RtosMutex) (inherits : Bool) : (mutex.entry inherits).Tracks := by
  cases inherits with
  | _ =>
      constructor
      · simp only [RtosMutex.entry]
        decide
      · simp only [RtosMutex.entry]
        decide

theorem leftBehind_other (set : RobustSet contexts core registry thread state)
    (member : mutex ∈ registry) (memberOther : other ∈ registry) (different : other ≠ mutex) :
    state.view.leftBehind mutex.lock.futex other.lock.futex =
      state.view.waiters other.lock.futex := by
  apply List.filter_eq_self.mpr
  intro task waits
  apply decide_eq_true
  intro first
  have waitsOwn : state.view.Waits task mutex.lock.futex := List.mem_of_mem_head? first
  exact set.futex_ne member memberOther different
    ((ordered_of_reachable set.reached).single task _ _ waits waitsOwn)

theorem wake (set : RobustSet contexts core registry thread state) (member : mutex ∈ registry)
    (owned : thread.owns state mutex) :
    ∃ next, step state (.futexWake core mutex.lock.futex false) = some next ∧
      RobustSet contexts core registry thread next ∧
      (∀ address, address ≠ mutex.lock.value → next.memory address = state.memory address) ∧
      (∀ queue, next.view.waiters queue = state.view.leftBehind mutex.lock.futex queue) ∧
      match state.view.waiters mutex.lock.futex with
      | [] => next.memory mutex.lock.value = thread.stack
      | first :: _ => untag (next.memory mutex.lock.value) = first := by
  have names : untag (state.memory mutex.lock.value) = thread.stack := of_decide_eq_true owned
  obtain ⟨lists, represents⟩ := set.rings
  obtain ⟨inherits, entry⟩ := set.entry mutex member
  have locked : state.memory mutex.lock.value ≠ 0 := by
    intro free
    rw [free, untagged_zero] at names
    exact set.address.2.1 names.symm
  have guards : state.futexValue mutex.lock.futex = state.memory mutex.lock.value := by
    rw [State.futexValue, entry]
    rfl
  have isOwner : state.view.owner mutex.lock.futex = thread.stack := by
    rw [← names, ← guards]
    rfl
  have idle : ∀ queue, ¬state.view.Waits (state.view.owner mutex.lock.futex) queue := by
    rw [isOwner]
    exact set.idle
  have tracks : (state.view.futex mutex.lock.futex).Tracks := by
    have same : state.view.futex mutex.lock.futex = mutex.entry inherits := entry
    rw [same]
    exact tracks_entry mutex inherits
  have address : (state.view.futex mutex.lock.futex).value = mutex.lock.value :=
    congrArg Futex.value entry
  obtain ⟨next, moved⟩ := exists_futexWake set.runs (by rw [entry]; rfl)
    (by rw [guards]; exact (set.owner mutex member locked).2) represents false
  obtain ⟨markers, runs, woken⟩ := frame_futexWake set.reached moved
  have ordered := ordered_of_reachable set.reached
  have waiters := View.waiters_wake woken idle
  obtain ⟨value, memory, tagged, handed⟩ := View.memory_wake woken tracks idle
  rw [address] at memory
  have own : next.memory mutex.lock.value = value := by
    have updated := congrFun memory mutex.lock.value
    rw [Function.update_self] at updated
    exact updated
  have elsewhere : ∀ address, address ≠ mutex.lock.value →
      next.memory address = state.memory address := by
    intro address different
    have kept := congrFun memory address
    rw [Function.update_of_ne different] at kept
    exact kept
  have named : match state.view.waiters mutex.lock.futex with
      | [] => next.memory mutex.lock.value = thread.stack
      | first :: _ => untag (next.memory mutex.lock.value) = first := by
    rw [own]
    cases queue : state.view.waiters mutex.lock.futex with
    | nil =>
        rw [queue] at handed
        exact handed.trans isOwner
    | cons first rest =>
        rw [queue] at handed
        have waits : state.view.Waits first mutex.lock.futex := by simp [View.Waits, queue]
        exact handed.trans (ordered.aligned first (ordered.listed first _ waits)).2
  refine ⟨next, moved, ?_, elsewhere, waiters, named⟩
  obtain ⟨_, parts⟩ := View.exists_wakes woken
  have reached : (scheduler cores).Reachable next := @System.Reachable.step _ _ (scheduler cores) _ _
    (.futexWake core mutex.lock.futex false) set.reached moved
  refine set.change reached runs (View.owned_wake woken tracks represents)
    parts.tasks parts.entries markers ?_ ?_
  · intro other memberOther lockedOther
    by_cases same : other = mutex
    · subst same
      cases queue : state.view.waiters other.lock.futex with
      | nil =>
          rw [queue] at named
          rw [named, set.address.2.2, ← names]
          exact set.owner other member locked
      | cons first rest =>
          rw [queue] at named
          have waits : state.view.Waits first other.lock.futex := by simp [View.Waits, queue]
          rw [named]
          exact ⟨(ordered.aligned first (ordered.listed first _ waits)).1,
            (set.contended other member first waits).1⟩
    · rw [elsewhere _ (set.value_ne member memberOther same)] at lockedOther ⊢
      exact set.owner other memberOther lockedOther
  · intro other memberOther task waits
    have before : state.view.Waits task other.lock.futex := by
      have inQueue : task ∈ next.view.waiters other.lock.futex := waits
      rw [waiters] at inQueue
      exact List.mem_of_mem_filter inQueue
    refine ⟨before, ?_⟩
    by_cases same : other = mutex
    · subst same
      rw [own]
      exact tagged (List.ne_nil_of_mem waits)
    · rw [elsewhere _ (set.value_ne member memberOther same)]
      exact (set.contended other memberOther task before).2

theorem clearCount (set : RobustSet contexts core registry thread state) (member : mutex ∈ registry) :
    ∃ start, (if mutex.lock.recursive then state.setMemory mutex.lock.count 0 else state) = start ∧
      RobustSet contexts core registry thread start ∧ Spares registry mutex state start ∧
      (mutex.lock.recursive → start.memory mutex.lock.count = 0) ∧
      start.memory mutex.lock.value = state.memory mutex.lock.value ∧
      start.view.waiters = state.view.waiters := by
  refine ⟨_, rfl, ?_⟩
  split
  · refine ⟨set.setCount member 0, ?_, fun _ => Function.update_self .., ?_, rfl⟩
    · intro other memberOther different
      refine ⟨?_, ?_, rfl⟩
      · exact Function.update_of_ne (set.apart other memberOther mutex member) _ _
      · exact Function.update_of_ne (set.count_ne member memberOther different) _ _
    · exact Function.update_of_ne (set.apart mutex member mutex member) _ _
  · rename_i plain
    exact ⟨set, fun _ _ _ => ⟨rfl, rfl, rfl⟩, fun recursive => (plain recursive).elim, rfl, rfl⟩

/-- A release of a mutex that the thread owns; a mutex that is marked as contended, but that nobody waits
for, is left with the thread, and no longer marked. -/
theorem release (set : RobustSet contexts core registry thread state) (member : mutex ∈ registry)
    (owned : thread.owns state mutex) :
    ∃ next, osMutexRobustRelease contexts core mutex thread state = .returns (.osOK, next) ∧
      RobustSet contexts core registry thread next ∧ Spares registry mutex state next ∧
      (mutex.lock.recursive → next.memory mutex.lock.count = 0) ∧
      (state.memory mutex.lock.value = thread.stack → next.memory mutex.lock.value = 0) ∧
      match state.view.waiters mutex.lock.futex with
      | [] => next.view.waiters mutex.lock.futex = [] ∧
          (next.memory mutex.lock.value = 0 ∨ next.memory mutex.lock.value = thread.stack)
      | first :: _ => untag (next.memory mutex.lock.value) = first ∧
          first ∉ next.view.waiters mutex.lock.futex := by
  obtain ⟨found, gets, isOwner⟩ := set.getOwner member
  have isThread : found = thread.address := isOwner.mpr owned
  obtain ⟨start, starts, setStart, spares, count, value, waiters⟩ := set.clearCount member
  have ownedStart : thread.owns start mutex := by
    rw [OwnerThread.owns, value]
    exact owned
  have released : osMutexRobustRelease contexts core mutex thread state =
      if start.memory mutex.lock.value = thread.stack then
        .returns (.osOK, start.setMemory mutex.lock.value 0)
      else
        match step start (.futexWake core mutex.lock.futex false) with
        | none => .aborts
        | some next => .returns (.osOK, next) := by
    simp only [osMutexRobustRelease, set.valid mutex member, set.marker, ne_eq, not_true_eq_false,
      if_false, gets, Ending.returns_bind, isThread, starts]
  rw [released, value]
  by_cases plain : state.memory mutex.lock.value = thread.stack
  · have alone : state.view.waiters mutex.lock.futex = [] := by
      apply List.eq_nil_iff_forall_not_mem.mpr
      intro task waits
      have tagged := (set.contended mutex member task waits).2
      rw [plain, set.address.2.2] at tagged
      exact tag_ne_of_untagged (by decide) set.address.2.2 tagged.symm
    refine ⟨_, if_pos plain, setStart.setFree member (waiters ▸ alone), ?_, ?_, ?_, ?_⟩
    · intro other memberOther different
      obtain ⟨valueOther, countOther, waitersOther⟩ := spares other memberOther different
      refine ⟨?_, ?_, waitersOther⟩
      · exact (Function.update_of_ne (set.value_ne member memberOther different) _ _).trans valueOther
      · have apart := (set.apart mutex member other memberOther).symm
        exact (Function.update_of_ne apart _ _).trans countOther
    · intro recursive
      have apart := (set.apart mutex member mutex member).symm
      exact (Function.update_of_ne apart _ _).trans (count recursive)
    · exact fun _ => Function.update_self ..
    · rw [alone]
      exact ⟨waiters ▸ alone, Or.inl (Function.update_self ..)⟩
  · obtain ⟨next, moved, setNext, elsewhere, left, handed⟩ := setStart.wake member ownedStart
    refine ⟨next, ?_, setNext, ?_, ?_, fun same => (plain same).elim, ?_⟩
    · rw [if_neg plain, moved]
    · intro other memberOther different
      obtain ⟨valueOther, countOther, waitersOther⟩ := spares other memberOther different
      refine ⟨?_, ?_, ?_⟩
      · rw [elsewhere _ (set.value_ne member memberOther different), valueOther]
      · rw [elsewhere _ (set.apart mutex member other memberOther).symm, countOther]
      · rw [left, setStart.leftBehind_other member memberOther different, waitersOther]
    · intro recursive
      rw [elsewhere _ (set.apart mutex member mutex member).symm]
      exact count recursive
    · rw [waiters] at handed
      cases queue : state.view.waiters mutex.lock.futex with
      | nil =>
          rw [queue] at handed
          refine ⟨?_, Or.inr handed⟩
          rw [left, View.leftBehind, waiters, queue]
          rfl
      | cons first rest =>
          rw [queue] at handed
          refine ⟨handed, ?_⟩
          rw [left, View.leftBehind, waiters, queue]
          simp

omit [NeZero cores] in
theorem Spares.trans {middle : State Links cores} (first : Spares registry mutex state middle)
    (second : Spares registry mutex middle next) : Spares registry mutex state next := by
  intro other member different
  obtain ⟨value, count, waiters⟩ := first other member different
  obtain ⟨valueNext, countNext, waitersNext⟩ := second other member different
  exact ⟨valueNext.trans value, countNext.trans count, waitersNext.trans waiters⟩

theorem releaseOwned_returns (set : RobustSet contexts core registry thread state)
    (member : mutex ∈ registry) (owned : thread.owns state mutex) :
    ∃ next, (∀ fuel, releaseOwned contexts core mutex thread (fuel + 3) state =
        .returns (.osOK, next)) ∧
      RobustSet contexts core registry thread next ∧ thread.owns next mutex = false ∧
      HandedOver mutex state next ∧ Spares registry mutex state next := by
  have goes : ∀ {state next : State Links cores} (fuel : Nat),
      RobustSet contexts core registry thread state → thread.owns state mutex →
      osMutexRobustRelease contexts core mutex thread state = .returns (.osOK, next) →
      releaseOwned contexts core mutex thread (fuel + 1) state =
        releaseOwned contexts core mutex thread fuel next := by
    intro state next fuel set owned released
    obtain ⟨found, gets, isOwner⟩ := set.getOwner member
    rw [releaseOwned, gets, Ending.returns_bind, if_pos (isOwner.mpr owned), released,
      Ending.returns_bind]
    exact if_neg fun fails => fails rfl
  have stops : ∀ {state : State Links cores} (fuel : Nat),
      RobustSet contexts core registry thread state → thread.owns state mutex = false →
      releaseOwned contexts core mutex thread (fuel + 1) state = .returns (.osOK, state) := by
    intro state fuel set free
    obtain ⟨found, gets, isOwner⟩ := set.getOwner member
    rw [releaseOwned, gets, Ending.returns_bind, if_neg fun isThread => ?_]
    rw [isOwner.mp isThread] at free
    cases free
  have isFree : ∀ {state : State Links cores}, state.memory mutex.lock.value = 0 →
      thread.owns state mutex = false := by
    intro state free
    rw [OwnerThread.owns, free, untagged_zero]
    exact decide_eq_false set.address.2.1.symm
  obtain ⟨next, released, setNext, spares, count, plain, handed⟩ := set.release member owned
  cases queue : state.view.waiters mutex.lock.futex with
  | cons first rest =>
      rw [queue] at handed
      have waits : state.view.Waits first mutex.lock.futex := by simp [View.Waits, queue]
      have free : thread.owns next mutex = false := by
        rw [OwnerThread.owns, handed.1]
        exact decide_eq_false fun same => set.idle _ (same ▸ waits)
      refine ⟨next, fun fuel => ?_, setNext, free, ?_, spares⟩
      · rw [goes _ set owned released, stops _ setNext free]
      · rw [HandedOver, queue]
        exact handed
  | nil =>
      rw [queue] at handed
      obtain ⟨alone, zero | same⟩ := handed
      · refine ⟨next, fun fuel => ?_, setNext, isFree zero, ?_, spares⟩
        · rw [goes _ set owned released, stops _ setNext (isFree zero)]
        · rw [HandedOver, queue]
          exact zero
      · have ownedNext : thread.owns next mutex := by
          rw [OwnerThread.owns, same, set.address.2.2]
          exact decide_eq_true rfl
        obtain ⟨final, releasedNext, setFinal, sparesNext, countNext, plainNext, _⟩ :=
          setNext.release member ownedNext
        have zero := plainNext same
        refine ⟨final, fun fuel => ?_, setFinal, isFree zero, ?_, Spares.trans spares sparesNext⟩
        · rw [goes _ set owned released, goes _ setNext ownedNext releasedNext,
            stops _ setFinal (isFree zero)]
        · rw [HandedOver, queue]
          exact zero

end RobustSet

end Wellformed

end PicoToolkit
