import PicoToolkit.Cmsis.WaitingCalls
import PicoToolkit.Library.Transition

/-!
Threads that wait on objects which other threads delete.  A deletion takes an object off its list whether or
not threads wait in its futex; only event flags count those that are inside a call.
-/

namespace PicoToolkit.Waiting

open Transition Locking Objects Tag

inductive DeleteCall where
  | osSemaphoreDelete (semaphore : Word)
  | osMutexDelete (mutex : MutexId)
  | osEventFlagsDelete (eventflags : Word)
  | osMemoryPoolDelete (pool : Word)
  | osMessageQueueDelete (queue : Word)

def DeleteCall.code (context : Context) : DeleteCall → RtosCode OsStatus
  | .osSemaphoreDelete semaphore => Objects.osSemaphoreDelete context (.own semaphore)
  | .osMutexDelete mutex => Objects.osMutexDelete context mutex
  | .osEventFlagsDelete eventflags => Objects.osEventFlagsDelete context (.own eventflags)
  | .osMemoryPoolDelete pool => Objects.osMemoryPoolDelete context (.own pool)
  | .osMessageQueueDelete queue => Objects.osMessageQueueDelete context queue

/-- What a thread does; a thread that is blocked is in the queue of the futex of an object. -/
inductive ThreadPlace where
  | idle
  | uses (code : UseCode Word)
  | blocked (object : RtosObject) (ticks : Word) (next : Result → UseCode Word)
  | deletes (code : RtosCode OsStatus)
  | ended

namespace ThreadPlace

def currentQueue : ThreadPlace → Option RtosObject
  | .blocked object _ _ => some object
  | _ => none

def resume (status : Result) : ThreadPlace → ThreadPlace
  | .blocked _ _ next => .uses (next status)
  | place => place

def wake (object : RtosObject) (place : ThreadPlace) : ThreadPlace :=
  if place.currentQueue = some object then place.resume (.value 0) else place

end ThreadPlace

structure Waiter where
  task : Word
  place : ThreadPlace

/-- The objects, the words that calls compute with, the objects that are not there (they have not been made, or
have been taken off their list and not been made again), the mutexes whose futex is linked into the ring
`owned_futexes` of a task, and the threads. -/
structure WaitedObjects where
  store : ObjectStore
  words : RtosObject → ObjectWord → Word
  gone : RtosObject → Bool
  linked : List MutexId
  threads : List Waiter

/-- An object is made, a thread begins a call, takes the next step of it, or returns, its wait times out or is
broken by a resume, or it is terminated.  The next step has a value where what it finds is left open, and
chooses the thread that it wakes. -/
inductive WaitedAction where
  | create (object : RtosObject) (attrBits : Word) (words : RtosObject → ObjectWord → Word)
  | use (index : Nat) (context : Context) (call : UseCall)
  | delete (index : Nat) (context : Context) (call : DeleteCall)
  | act (index : Nat) (value : Word) (chosen : Nat)
  | returns (index : Nat)
  | expire (index : Nat)
  | resume (index : Nat)
  | terminate (index : Nat)

namespace WaitedObjects

variable (state : WaitedObjects)

def setPlace (index : Nat) (place : ThreadPlace) : WaitedObjects :=
  { state with threads := state.threads.modify index fun thread => { thread with place := place } }

def setWord (object : RtosObject) (word : ObjectWord) (value : Word) : WaitedObjects :=
  { state with words := Function.update state.words object (Function.update (state.words object) word value) }

def waited (object : RtosObject) : Bool :=
  state.threads.any fun thread => decide (thread.place.currentQueue = some object)

/-- `SCHEDULER_FUTEX_PI` -/
def link (mutex : MutexId) : WaitedObjects :=
  if mutex.attrBits &&& osMutexPrioInherit ≠ 0 then { state with linked := mutex :: state.linked } else state

def unlink (mutex : MutexId) : WaitedObjects :=
  { state with linked := state.linked.filter fun other => decide (other ≠ mutex) }

/-- `scheduler_wait_svc`: the futexes of mutexes track contention, and with priority inheritance that of a
mutex goes into the ring of its owner. -/
def schedulerWaitSvc (index : Nat) (object : RtosObject) (expected ticks : Word)
    (next : Result → UseCode Word) : WaitedObjects :=
  let stored := state.words object .value
  match object with
  | .mutex mutex =>
      if stored = expected ∨ stored = tag expected then
        ((state.setWord object .value (tag expected)).link mutex).setPlace index (.blocked object ticks next)
      else state.setPlace index (.uses (next (.value 0)))
  | _ =>
      if stored = expected then state.setPlace index (.blocked object ticks next)
      else state.setPlace index (.uses (next (.value 0)))

def wakeOne (object : RtosObject) (chosen : Nat) : Option WaitedObjects :=
  if state.waited object then
    state.threads[chosen]?.bind fun thread =>
      if thread.place.currentQueue = some object then
        some (state.setPlace chosen (thread.place.wake object))
      else none
  else some state

/-- `scheduler_wake_futex`: the owner of a mutex is the task that is woken, and its futex goes into the ring of
the new owner if there are other waiters. -/
def schedulerWakeFutex (object : RtosObject) (all : Bool) (chosen : Nat) : Option WaitedObjects :=
  match object with
  | .mutex mutex =>
      let owner := if state.waited object then (state.threads[chosen]?.map Waiter.task).getD 0
        else state.words object .value
      ((state.unlink mutex).wakeOne object chosen).map fun next =>
        if next.waited object then (next.link mutex).setWord object .value (tag owner)
        else next.setWord object .value (untag owner)
  | _ =>
      if all then
        some { state with
          threads := state.threads.map fun thread => { thread with place := thread.place.wake object } }
      else state.wakeOne object chosen

def answer (value : Word) : (op : RtosOp) → op.Answer Word
  | .lock _ | .unlock _ | .insert _ _ | .remove _ => ()
  | .isLinked (.resource object) => decide (.resource object ∈ state.store.lists (.resource object.resourceId))
  | .isLinked (.active timer) => decide (.active timer ∈ state.store.lists .activeTimers)
  | .traverse list => state.store.lists list
  | .perform (.load object field) => state.store.memory object field
  | .perform _ => value

def goneAfter : RtosOp → RtosObject → Bool
  | .remove (.resource object) => Function.update state.gone object true
  | .perform (.store object .marker value) =>
      if PicoToolkit.osIsResourceValid value object.marker = .osOK then Function.update state.gone object false
      else state.gone
  | _ => state.gone

def after (op : RtosOp) : WaitedObjects :=
  { state with store := state.store.after op, gone := state.goneAfter op }

def useStep (index : Nat) (value : Word) (chosen : Nat) : UseCode Word → Option WaitedObjects
  | .done _ | .unfinished => none
  | .load object field next =>
      some (state.setPlace index (.uses (next (state.store.memory object field))))
  | .waiters eventflags change next =>
      let waiters := change (state.store.memory (.eventFlags eventflags) .waiters)
      some (setPlace { state with store := state.store.set (.eventFlags eventflags) .waiters waiters } index
        (.uses next))
  | .word object word change next =>
      let found := state.words object word
      some ((state.setWord object word (change found)).setPlace index (.uses (next found)))
  | .wait object expected ticks next => some (state.schedulerWaitSvc index object expected ticks next)
  | .wake object all next =>
      (state.schedulerWakeFutex object all chosen).map fun woken =>
        woken.setPlace index (.uses (next (.value value)))
  | .choose next => some (state.setPlace index (.uses (next (decide (value ≠ 0)))))
  | .exit => some (state.setPlace index .ended)

def madeMemory (object : RtosObject) (attrBits : Word) (other : RtosObject) : ObjectField → Word
  | .marker => other.marker
  | .attrBits => if other = object then attrBits else 0
  | .waiters => 0
  | field => state.store.memory other field

def create (object : RtosObject) (attrBits : Word) (words : RtosObject → ObjectWord → Word) :
    WaitedObjects :=
  let made := object :: object.parts
  { state with
    store := {
      memory := fun other => if other ∈ made then state.madeMemory object attrBits other
        else state.store.memory other
      lists := fun list => state.store.lists list ++
        (made.filter fun other => decide (.resource other.resourceId = list)).map .resource
      released := state.store.released }
    words := fun other => if other ∈ made then words other else state.words other
    gone := fun other => if other ∈ made then false else state.gone other
    linked := state.linked.filter fun mutex => decide (.mutex mutex ≠ object) }

def step : WaitedAction → Option WaitedObjects
  | .create object attrBits words =>
      if object.embedded = false ∧ ∀ other ∈ object :: object.parts, state.gone other = true then
        some (state.create object attrBits words)
      else none
  | .use index context call =>
      state.threads[index]?.bind fun thread =>
        match thread.place with
        | .idle => some (state.setPlace index (.uses (call.code context thread.task)))
        | _ => none
  | .delete index context call =>
      state.threads[index]?.bind fun thread =>
        match thread.place with
        | .idle => some (state.setPlace index (.deletes (call.code context)))
        | _ => none
  | .act index value chosen =>
      state.threads[index]?.bind fun thread =>
        match thread.place with
        | .uses code => state.useStep index value chosen code
        | .deletes (.step op next) =>
            some ((state.after op).setPlace index (.deletes (next (state.answer value op))))
        | _ => none
  | .returns index =>
      state.threads[index]?.bind fun thread =>
        match thread.place with
        | .uses (.done _) | .deletes (.done _) => some (state.setPlace index .idle)
        | _ => none
  | .expire index =>
      state.threads[index]?.bind fun thread =>
        match thread.place with
        | .blocked _ ticks _ =>
            if ticks < schedulerWaitForever then
              some (state.setPlace index (thread.place.resume (.error .etimedout)))
            else none
        | _ => none
  | .resume index =>
      state.threads[index]?.bind fun thread =>
        match thread.place with
        | .blocked _ _ _ => some (state.setPlace index (thread.place.resume (.error .ecanceled)))
        | _ => none
  | .terminate index => some (state.setPlace index .ended)

end WaitedObjects

abbrev waitedSystem : System WaitedObjects WaitedAction where
  initial state := (∀ object, state.gone object = true ∧ ¬state.store.valid object) ∧ state.linked = [] ∧
    ∀ thread ∈ state.threads, thread.place = .idle
  step := WaitedObjects.step

/-- Each blocked thread's `current_queue` lies in objects that are there, and no futex of a deleted mutex is in
the ring of a task. -/
def NobodyStranded (state : WaitedObjects) : Prop :=
  (∀ thread ∈ state.threads, ∀ queue ∈ thread.place.currentQueue, ∀ object ∈ enclosing queue,
    state.gone object = false) ∧
  ∀ mutex ∈ state.linked, state.gone (.mutex mutex) = false

/-- A thread neither waits in an object, or in a part of it, nor comes to do so before it validates it. -/
def ThreadPlace.Spares (object : RtosObject) : ThreadPlace → Prop
  | .uses code => Quiet object code
  | .blocked queue _ next => object ∉ enclosing queue ∧ ∀ status, Quiet object (next status)
  | _ => True

def keepsMarker : RtosObject → Bool
  | .eventFlags _ => true
  | _ => false

/-- An object that can be taken off its list: no thread waits in it or may come to wait there, its futex is in no
ring, and the marker that its deletion has cleared is still cleared. -/
structure Unused (state : WaitedObjects) (object : RtosObject) : Prop where
  spared : ∀ thread ∈ state.threads, thread.place.Spares object
  unlinked : ∀ mutex ∈ state.linked, .mutex mutex ≠ object
  cleared : keepsMarker object = false → ¬state.store.valid object

/-- Only unused objects are taken off their list, and no call that may come to wait validates event flags that
have been deleted. -/
def DeletesUnused (state : WaitedObjects) : WaitedAction → Prop
  | .act index _ _ => ∀ thread, state.threads[index]? = some thread →
      match thread.place with
      | .deletes (.step (.remove (.resource object)) _) => Unused state object
      | .uses (.load (.eventFlags eventflags) .marker next) =>
          state.gone (.eventFlags eventflags) = true →
            Quiet (.eventFlags eventflags) (next (state.store.memory (.eventFlags eventflags) .marker))
      | _ => True
  | _ => True

/-- No thread waits in an object that is gone, or comes to do so; the marker of such an object is cleared. -/
structure Kept (state : WaitedObjects) : Prop where
  spared : ∀ thread ∈ state.threads, ∀ object, state.gone object = true → thread.place.Spares object
  unlinked : ∀ mutex ∈ state.linked, state.gone (.mutex mutex) = false
  cleared : ∀ object, state.gone object = true → keepsMarker object = false → ¬state.store.valid object

section Kept

variable {state next : WaitedObjects} {index chosen : Nat} {place : ThreadPlace} {object : RtosObject}
  {mutex : MutexId} {value : Word} {status : Result}

theorem Kept.nobodyStranded (kept : Kept state) : NobodyStranded state := by
  refine ⟨fun thread member queue isQueue object inside => ?_, kept.unlinked⟩
  by_contra notThere
  have spares := kept.spared thread member object (by simpa using notThere)
  cases found : thread.place with
  | blocked own ticks next =>
      rw [found] at spares isQueue
      have same : own = queue := Option.some_inj.mp isQueue
      subst same
      exact spares.1 inside
  | _ =>
      rw [found] at isQueue
      cases isQueue

theorem ThreadPlace.Spares.resume (spares : place.Spares object) :
    (place.resume status).Spares object := by
  cases place with
  | blocked queue ticks next => exact spares.2 status
  | _ => exact spares

theorem ThreadPlace.Spares.wake {queue : RtosObject} (spares : place.Spares object) :
    (place.wake queue).Spares object := by
  rw [ThreadPlace.wake]
  split
  · exact spares.resume
  · exact spares

theorem mem_setPlace {thread : Waiter} (member : thread ∈ (state.setPlace index place).threads) :
    thread ∈ state.threads ∨ thread.place = place := by
  obtain ⟨other, found⟩ := List.mem_iff_getElem?.mp member
  rw [WaitedObjects.setPlace, List.getElem?_modify] at found
  obtain ⟨old, isOld, isThread⟩ := Option.map_eq_some_iff.mp found
  by_cases same : index = other
  · right
    rw [← isThread, if_pos same]
  · left
    rw [← isThread, if_neg same]
    exact List.mem_of_getElem? isOld

theorem Kept.setPlace (kept : Kept state)
    (spares : ∀ object, state.gone object = true → place.Spares object) :
    Kept (state.setPlace index place) := by
  refine ⟨fun thread member object isGone => ?_, kept.unlinked, kept.cleared⟩
  rcases mem_setPlace member with old | isPlace
  · exact kept.spared thread old object isGone
  · rw [isPlace]
    exact spares object isGone

theorem Kept.setWord (kept : Kept state) (word : ObjectWord) : Kept (state.setWord object word value) :=
  ⟨kept.spared, kept.unlinked, kept.cleared⟩

theorem Kept.link (kept : Kept state) (there : state.gone (.mutex mutex) = false) :
    Kept (state.link mutex) := by
  rw [WaitedObjects.link]
  split
  · refine ⟨kept.spared, fun other member => ?_, kept.cleared⟩
    rcases List.mem_cons.mp member with same | old
    · rw [same]
      exact there
    · exact kept.unlinked other old
  · exact kept

theorem Kept.unlink (kept : Kept state) : Kept (state.unlink mutex) :=
  ⟨kept.spared, fun other member => kept.unlinked other (List.mem_filter.mp member).1, kept.cleared⟩

theorem Kept.there_of_waited (kept : Kept state) (waited : state.waited object = true) :
    state.gone object = false := by
  obtain ⟨thread, member, isQueue⟩ := List.any_eq_true.mp waited
  have own : object ∈ enclosing object := by
    unfold enclosing
    split
    all_goals simp
  exact kept.nobodyStranded.1 thread member object (of_decide_eq_true isQueue) object own

theorem Kept.wakeOne (kept : Kept state) (moved : state.wakeOne object chosen = some next) :
    Kept next ∧ next.gone = state.gone := by
  rw [WaitedObjects.wakeOne] at moved
  split at moved
  · obtain ⟨thread, found, moved⟩ := Option.bind_eq_some_iff.mp moved
    split at moved
    · obtain rfl := Option.some_inj.mp moved
      have spared := kept.spared thread (List.mem_of_getElem? found)
      exact ⟨kept.setPlace fun other isGone => (spared other isGone).wake, rfl⟩
    · cases moved
  · obtain rfl := Option.some_inj.mp moved
    exact ⟨kept, rfl⟩

theorem Kept.schedulerWakeFutex (kept : Kept state) {all : Bool}
    (moved : state.schedulerWakeFutex object all chosen = some next) :
    Kept next ∧ next.gone = state.gone := by
  unfold WaitedObjects.schedulerWakeFutex at moved
  split at moved
  · obtain ⟨middle, first, isNext⟩ := Option.map_eq_some_iff.mp moved
    obtain ⟨keptMiddle, same⟩ := kept.unlink.wakeOne first
    rw [← isNext]
    split
    · rename_i waited
      refine ⟨(keptMiddle.link (keptMiddle.there_of_waited waited)).setWord _, ?_⟩
      rw [WaitedObjects.link]
      split
      · exact same
      · exact same
    · exact ⟨keptMiddle.setWord _, same⟩
  · split at moved
    · obtain rfl := Option.some_inj.mp moved
      refine ⟨⟨fun thread member other isGone => ?_, kept.unlinked, kept.cleared⟩, rfl⟩
      obtain ⟨old, isOld, isThread⟩ := List.mem_map.mp member
      rw [← isThread]
      exact (kept.spared old isOld other isGone).wake
    · exact kept.wakeOne moved

theorem Kept.schedulerWaitSvc (kept : Kept state) {expected ticks : Word} {rest : Result → UseCode Word}
    (quiet : ∀ other, state.gone other = true → Quiet other (.wait object expected ticks rest)) :
    Kept (state.schedulerWaitSvc index object expected ticks rest) := by
  have goesOn : Kept (state.setPlace index (.uses (rest (.value 0)))) :=
    kept.setPlace fun other isGone => (quiet other isGone).2 _
  unfold WaitedObjects.schedulerWaitSvc
  simp only
  split
  · rename_i mutex
    split
    · have there : state.gone (.mutex mutex) = false := by
        by_contra notThere
        exact (quiet (.mutex mutex) (by simpa using notThere)).1 (List.mem_singleton.mpr rfl)
      refine ((kept.setWord .value).link there).setPlace fun other isGone => quiet other ?_
      rw [WaitedObjects.link] at isGone
      split at isGone
      · exact isGone
      · exact isGone
    · exact goesOn
  · split
    · exact kept.setPlace quiet
    · exact goesOn

theorem Kept.useStep (kept : Kept state) {code : UseCode Word}
    (quiet : ∀ other, state.gone other = true → Quiet other code)
    (unused : ∀ eventflags next, code = .load (.eventFlags eventflags) .marker next →
      state.gone (.eventFlags eventflags) = true →
        Quiet (.eventFlags eventflags) (next (state.store.memory (.eventFlags eventflags) .marker)))
    (moved : state.useStep index value chosen code = some next) : Kept next := by
  cases code with
  | done result => cases moved
  | unfinished => cases moved
  | load other field rest =>
      obtain rfl := Option.some_inj.mp moved
      refine kept.setPlace fun object isGone => ?_
      rcases quiet object isGone (state.store.memory other field) with ⟨same, isMarker, valid⟩ | later
      · subst same
        subst isMarker
        cases other with
        | eventFlags eventflags => exact unused eventflags rest rfl isGone
        | _ => exact (kept.cleared _ isGone rfl valid).elim
      · exact later
  | waiters eventflags change rest =>
      obtain rfl := Option.some_inj.mp moved
      refine Kept.setPlace ⟨kept.spared, kept.unlinked, fun object isGone keeps => ?_⟩
        fun object isGone => quiet object isGone
      have same : (state.store.set (.eventFlags eventflags) .waiters
          (change (state.store.memory (.eventFlags eventflags) .waiters))).memory object .marker =
            state.store.memory object .marker := memory_set_of_ne (Or.inr nofun)
      rw [ObjectStore.valid, same]
      exact kept.cleared object isGone keeps
  | word other kind change rest =>
      obtain rfl := Option.some_inj.mp moved
      exact (kept.setWord kind).setPlace fun object isGone => quiet object isGone _
  | wait other expected ticks rest =>
      obtain rfl := Option.some_inj.mp moved
      exact kept.schedulerWaitSvc quiet
  | wake other all rest =>
      obtain ⟨woken, first, isNext⟩ := Option.map_eq_some_iff.mp moved
      obtain ⟨keptWoken, same⟩ := kept.schedulerWakeFutex first
      rw [← isNext]
      refine keptWoken.setPlace fun object isGone => quiet object ?_ _
      rw [← same]
      exact isGone
  | choose rest =>
      obtain rfl := Option.some_inj.mp moved
      exact kept.setPlace fun object isGone => quiet object isGone _
  | exit =>
      obtain rfl := Option.some_inj.mp moved
      exact kept.setPlace fun _ _ => trivial

/-- An object is gone after an operation only if it takes it off its list, or it was gone before. -/
theorem gone_of_after {op : RtosOp} (isGone : (state.after op).gone object = true) :
    op = .remove (.resource object) ∨ state.gone object = true := by
  cases op with
  | remove node =>
      cases node with
      | resource removed =>
          by_cases same : object = removed
          · exact Or.inl (by rw [same])
          · right
            rw [← isGone]
            exact (Function.update_of_ne same _ _).symm
      | active timer => exact Or.inr isGone
  | perform effect =>
      right
      cases effect with
      | store written field value =>
          rw [WaitedObjects.after, WaitedObjects.goneAfter.eq_def] at isGone
          cases field with
          | marker =>
              simp only at isGone
              split at isGone
              · by_cases same : object = written
                · rw [same, Function.update_self] at isGone
                  cases isGone
                · rw [Function.update_of_ne same] at isGone
                  exact isGone
              · exact isGone
          | _ => exact isGone
      | _ => exact isGone
  | _ => exact Or.inr isGone

theorem valid_of_after {op : RtosOp} (isGone : (state.after op).gone object = true)
    (valid : (state.after op).store.valid object) : state.store.valid object := by
  cases op with
  | perform effect =>
      cases effect with
      | store written field value =>
          by_cases same : object = written ∧ field = .marker
          · obtain ⟨isWritten, isMarker⟩ := same
            subst isWritten
            subst isMarker
            have found : (state.after (.perform (.store object .marker value))).store.memory object .marker =
              value := memory_set_self
            rw [ObjectStore.valid, found] at valid
            rw [WaitedObjects.after, WaitedObjects.goneAfter] at isGone
            simp only [if_pos valid, Function.update_self] at isGone
            cases isGone
          · have found : (state.after (.perform (.store written field value))).store.memory object .marker =
                state.store.memory object .marker := by
              refine memory_set_of_ne ?_
              by_cases isWritten : object = written
              · exact Or.inr fun isMarker => same ⟨isWritten, isMarker.symm⟩
              · exact Or.inl isWritten
            rw [ObjectStore.valid, found] at valid
            exact valid
      | _ => exact valid
  | _ => exact valid

theorem Kept.after (kept : Kept state) (op : RtosOp)
    (unused : ∀ object, op = .remove (.resource object) → Unused state object) :
    Kept (state.after op) := by
  refine ⟨fun thread member object isGone => ?_, fun mutex member => ?_,
    fun object isGone keeps valid => ?_⟩
  · rcases gone_of_after isGone with removes | wasGone
    · exact (unused object removes).spared thread member
    · exact kept.spared thread member object wasGone
  · by_contra notThere
    rcases gone_of_after (by simpa using notThere) with removes | wasGone
    · exact (unused _ removes).unlinked mutex member rfl
    · rw [kept.unlinked mutex member] at wasGone
      cases wasGone
  · have wasValid := valid_of_after isGone valid
    rcases gone_of_after isGone with removes | wasGone
    · exact (unused object removes).cleared keeps wasValid
    · exact kept.cleared object wasGone keeps wasValid

theorem Kept.create (kept : Kept state) (attrBits : Word) (words : RtosObject → ObjectWord → Word) :
    Kept (state.create object attrBits words) := by
  have others : ∀ other, (state.create object attrBits words).gone other = true →
      other ∉ object :: object.parts ∧ state.gone other = true := by
    intro other isGone
    rw [WaitedObjects.create] at isGone
    simp only at isGone
    split at isGone
    · cases isGone
    · rename_i notMade
      exact ⟨notMade, isGone⟩
  refine ⟨fun thread member other isGone => ?_, fun mutex member => ?_, fun other isGone keeps => ?_⟩
  · exact kept.spared thread member other (others other isGone).2
  · by_contra notThere
    have wasGone := (others (.mutex mutex) (by simpa using notThere)).2
    rw [kept.unlinked mutex (List.mem_filter.mp member).1] at wasGone
    cases wasGone
  · obtain ⟨notMade, wasGone⟩ := others other isGone
    have found : (state.create object attrBits words).store.memory other .marker =
        state.store.memory other .marker := by
      rw [WaitedObjects.create]
      simp only [if_neg notMade]
    rw [ObjectStore.valid, found]
    exact kept.cleared other wasGone keeps

theorem Kept.step {action : WaitedAction} (kept : Kept state) (unused : DeletesUnused state action)
    (moved : waitedSystem.step state action = some next) : Kept next := by
  have idle : ∀ object, state.gone object = true → ThreadPlace.idle.Spares object := fun _ _ => trivial
  cases action with
  | create object attrBits words =>
      simp only [WaitedObjects.step, Option.ite_none_right_eq_some] at moved
      obtain rfl := Option.some_inj.mp moved.2
      exact kept.create attrBits words
  | use index context call =>
      obtain ⟨thread, found, moved⟩ := Option.bind_eq_some_iff.mp moved
      split at moved
      · obtain rfl := Option.some_inj.mp moved
        exact kept.setPlace fun object _ => quiet_code thread.task call
      · cases moved
  | delete index context call =>
      obtain ⟨thread, found, moved⟩ := Option.bind_eq_some_iff.mp moved
      split at moved
      · obtain rfl := Option.some_inj.mp moved
        exact kept.setPlace fun _ _ => trivial
      · cases moved
  | act index value chosen =>
      obtain ⟨thread, found, moved⟩ := Option.bind_eq_some_iff.mp moved
      have allowed := unused thread found
      have spared := kept.spared thread (List.mem_of_getElem? found)
      split at moved
      · rename_i code isPlace
        rw [isPlace] at allowed spared
        refine kept.useStep spared (fun eventflags rest isLoad isGone => ?_) moved
        subst isLoad
        exact allowed isGone
      · rename_i op rest isPlace
        rw [isPlace] at allowed
        obtain rfl := Option.some_inj.mp moved
        refine (kept.after op fun object isRemove => ?_).setPlace fun _ _ => trivial
        subst isRemove
        exact allowed
      · cases moved
  | returns index =>
      obtain ⟨thread, found, moved⟩ := Option.bind_eq_some_iff.mp moved
      split at moved
      · obtain rfl := Option.some_inj.mp moved
        exact kept.setPlace idle
      · obtain rfl := Option.some_inj.mp moved
        exact kept.setPlace idle
      · cases moved
  | expire index =>
      obtain ⟨thread, found, moved⟩ := Option.bind_eq_some_iff.mp moved
      split at moved
      · split at moved
        · obtain rfl := Option.some_inj.mp moved
          exact kept.setPlace fun object isGone =>
            (kept.spared thread (List.mem_of_getElem? found) object isGone).resume
        · cases moved
      · cases moved
  | resume index =>
      obtain ⟨thread, found, moved⟩ := Option.bind_eq_some_iff.mp moved
      split at moved
      · obtain rfl := Option.some_inj.mp moved
        exact kept.setPlace fun object isGone =>
          (kept.spared thread (List.mem_of_getElem? found) object isGone).resume
      · cases moved
  | terminate index =>
      obtain rfl := Option.some_inj.mp moved
      exact kept.setPlace fun _ _ => trivial

theorem kept_of_initial (begins : waitedSystem.initial state) : Kept state := by
  obtain ⟨absent, noneLinked, outside⟩ := begins
  refine ⟨fun thread member object _ => ?_, fun mutex member => ?_, fun object _ _ => (absent object).2⟩
  · rw [outside thread member]
    trivial
  · rw [noneLinked] at member
    cases member

end Kept

/-- If only unused objects are deleted, nobody stays blocked on a deleted object. -/
theorem nobodyStranded_of_guarded {state : WaitedObjects}
    (reached : waitedSystem.Guarded DeletesUnused state) : NobodyStranded state :=
  (reached.invariant (motive := Kept) (fun _ => kept_of_initial)
    fun _ _ _ kept unused moved => kept.step unused moved).nobodyStranded

def twoThreads : WaitedObjects where
  store := { memory := fun _ _ => 0, lists := fun _ => [], released := [] }
  words := fun _ _ => 0
  gone := fun _ => true
  linked := []
  threads := [⟨0x1000, .idle⟩, ⟨0x2000, .idle⟩]

theorem initial_twoThreads : waitedSystem.initial twoThreads := by
  refine ⟨fun object => ⟨rfl, ?_⟩, rfl, fun thread member => ?_⟩
  · rw [ObjectStore.valid]
    exact osIsResourceValid_zero object
  · simp only [twoThreads, List.mem_cons, List.not_mem_nil, or_false] at member
    rcases member with rfl | rfl
    · rfl
    · rfl

def acts (index steps : Nat) : List WaitedAction := List.replicate steps (.act index 0 0)

/-- A semaphore with a token is made; the first thread takes the token, and is in the wait for another one. -/
def waitForToken : List WaitedAction :=
  [WaitedAction.create (.semaphore (.own 0x100)) 0 fun _ word => if word = .count then 0 else 1,
    .use 0 .thread (.osSemaphoreAcquire 0x100 0 1)] ++ acts 0 2 ++
    [WaitedAction.returns 0, .use 0 .thread (.osSemaphoreAcquire 0x100 osWaitForever 2)] ++ acts 0 3

/-- A stronger condition: when an object is taken off its list, every other thread is outside of all calls. -/
def Alone (state : WaitedObjects) : WaitedAction → Prop
  | .act index _ _ =>
      match state.threads[index]?.map Waiter.place with
      | some (.deletes (.step (.remove (.resource object)) _)) =>
          (state.threads.all fun thread =>
            match thread.place with
            | .uses _ | .blocked _ _ _ => false
            | _ => true) ∧ state.linked = [] ∧ ¬state.store.valid object
      | some (.uses (.load (.eventFlags eventflags) .marker _)) =>
          state.gone (.eventFlags eventflags) = false
      | _ => True
  | _ => True

instance (state : WaitedObjects) (action : WaitedAction) : Decidable (Alone state action) := by
  unfold Alone
  split
  · split
    · exact inferInstance
    · exact inferInstance
    · exact inferInstance
  · exact inferInstance

theorem Alone.deletesUnused {state : WaitedObjects} {action : WaitedAction} (alone : Alone state action) :
    DeletesUnused state action := by
  cases action with
  | act index value chosen =>
      intro thread found
      rw [Alone, found, Option.map_some] at alone
      split
      · rename_i object rest isPlace
        rw [isPlace] at alone
        obtain ⟨outside, noneLinked, cleared⟩ := alone
        refine ⟨fun other member => ?_, fun mutex member => ?_, fun _ => cleared⟩
        · have isOutside := List.all_eq_true.mp outside other member
          cases isOther : other.place with
          | uses code =>
              rw [isOther] at isOutside
              cases isOutside
          | blocked queue ticks next =>
              rw [isOther] at isOutside
              cases isOutside
          | _ => trivial
        · rw [noneLinked] at member
          cases member
      · rename_i eventflags rest isPlace
        rw [isPlace] at alone
        intro isGone
        rw [show state.gone (.eventFlags eventflags) = false from alone] at isGone
        cases isGone
      · trivial
  | _ => trivial

theorem nobodyStranded_of_guarded_run :
    ∃ state : WaitedObjects, state.gone (.semaphore (.own 0x100)) = true ∧ NobodyStranded state := by
  obtain ⟨state, reached, isGone⟩ := @System.exists_of_run _ _ waitedSystem Alone _ _ initial_twoThreads
    (List.flatten [waitForToken, [.use 1 .thread (.osSemaphoreRelease 0x100)], acts 1 5,
      [.returns 1], acts 0 1, [.returns 0, .delete 1 .thread (.osSemaphoreDelete 0x100)], acts 1 5])
    (fun state => state.gone (.semaphore (.own 0x100)) = true)
    (fun _ => inferInstanceAs (Decidable (_ = _))) (by decide)
  exact ⟨state, isGone, nobodyStranded_of_guarded (reached.mono fun _ _ alone => alone.deletesUnused)⟩

theorem not_nobodyStranded :
    ¬∀ state : WaitedObjects, waitedSystem.Reachable state → NobodyStranded state := by
  intro always
  obtain ⟨state, reached, isGone, waits⟩ := @System.exists_of_run _ _ waitedSystem (fun _ _ => True) _ _
    initial_twoThreads (List.flatten [waitForToken, [.delete 1 .thread (.osSemaphoreDelete 0x100)],
                         acts 1 6, [.returns 1]])
    (fun state => state.gone (.semaphore (.own 0x100)) = true ∧
      state.waited (.semaphore (.own 0x100)) = true)
    (fun _ => inferInstanceAs (Decidable (_ ∧ _))) (by decide)
  obtain ⟨thread, member, isQueue⟩ := List.any_eq_true.mp waits
  have there := (always state reached).1 thread member _ (of_decide_eq_true isQueue) (.semaphore (.own 0x100))
    (List.mem_singleton.mpr rfl)
  rw [isGone] at there
  cases there

end PicoToolkit.Waiting
