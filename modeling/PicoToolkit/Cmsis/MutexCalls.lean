import PicoToolkit.Cmsis.RobustMutex
import PicoToolkit.Threads.TimedLocks
import PicoToolkit.Threads.Waking

/-!
Any number of tasks that share a mutex through the functions of `mtx_t` or of CMSIS-RTOS2, on the
scheduler: what one step does to the word, the count and the queue of the mutex.
-/

namespace PicoToolkit

open Ring Transition Interleaving Tag

/-- `mtx_timedlock` comes with the ticks that it reads. -/
inductive MutexCall where
  | mtxLock
  | mtxTrylock
  | mtxTimedlock (timed : Bool) (ticks : Word) (tm : Timespec)
  | mtxUnlock
  | osMutexAcquire (timeout : Word)
  | osMutexRelease

/-- A call, and what `scheduler_task` returns during it. -/
structure MutexEntry where
  self : Word
  call : MutexCall

inductive MutexPlace where
  | lock (self msec : Word) (place : LockPlace ⊕ ThrdReturn)
  | trylock (self : Word) (place : TryPlace ⊕ TryStatus × Option Errno)
  | unlock (self : Word) (place : UnlockPlace ⊕ ThrdReturn)
  | acquire (self timeout : Word) (place : LockPlace ⊕ OsStatus)
  | release (self : Word) (place : UnlockPlace ⊕ OsStatus)
  deriving DecidableEq

def mutexEnter (mutex : RtosMutex) : Context × MutexEntry → MutexPlace
  | (_, ⟨self, .mtxLock⟩) => .lock self schedulerWaitForever (.inl .owned)
  | (_, ⟨self, .mtxTrylock⟩) => .trylock self (.inl .owned)
  | (_, ⟨self, .mtxTimedlock timed ticks tm⟩) =>
      if timed = false then .lock self 0 (.inr (.thrdError, some (.error .einval)))
      else
        match remainingTicks ticks tm with
        | none => .lock self 0 (.inr (.thrdTimedout, none))
        | some msec => .lock self msec (.inl .owned)
  | (_, ⟨self, .mtxUnlock⟩) => .unlock self (.inl .owned)
  | (context, ⟨self, .osMutexAcquire timeout⟩) =>
      .acquire self timeout (osMutexAcquireStart mutex context)
  | (context, ⟨self, .osMutexRelease⟩) => .release self (osMutexReleaseStart mutex context)

def mutexProgram (contexts : Word → Word) (mutex : RtosMutex) :
    ThreadProgram Unit MutexPlace MutexEntry where
  enter := mutexEnter mutex
  op
    | .lock self msec (.inl place) =>
        some ((mtxLockFor mutex.lock self msec place).map (.lock self msec))
    | .trylock self (.inl place) => some ((mtxTrylock mutex.lock self place).map (.trylock self))
    | .unlock self (.inl place) => some ((mtxUnlock mutex.lock self place).map (.unlock self))
    | .acquire self timeout (.inl place) =>
        some ((osMutexAcquire mutex self timeout place).map (.acquire self timeout))
    | .release self (.inl place) =>
        some ((osMutexRelease contexts mutex self place).map (.release self))
    | _ => none

def MutexPlace.self : MutexPlace → Word
  | .lock self _ _ | .trylock self _ | .unlock self _ | .acquire self _ _ | .release self _ => self

def TryPlace.lockPlace : TryPlace → LockPlace
  | .owned => .owned
  | .again => .again
  | .exchange => .exchange
  | .first => .first

/-- How far a call is, whichever function it calls: in an acquire, that may wait or not, or in a release,
or it has returned with the mutex taken, with the mutex given, or without either. -/
inductive MutexPhase where
  | taking (waits : Bool) (place : LockPlace)
  | giving (place : UnlockPlace)
  | taken
  | given
  | ended
  deriving DecidableEq

/-- The phases in which a call relies on the word to name its task. -/
def MutexPhase.names : MutexPhase → Bool
  | .taking _ .again | .taking _ .first | .giving .count | .giving .load | .giving .exchange
  | .giving .wake => true
  | _ => false

/-- The phases from which a call may return without success. -/
def MutexPhase.early : MutexPhase → Bool
  | .taking _ .owned | .taking _ .exchange | .taking _ (.wait _) | .giving .owned => true
  | _ => false

def MutexPhase.fresh : MutexPhase → Bool
  | .taking _ .owned | .giving .owned | .ended => true
  | _ => false

def MutexPlace.phase : MutexPlace → MutexPhase
  | .lock _ _ (.inl place) | .acquire _ _ (.inl place) => .taking true place
  | .trylock _ (.inl place) => .taking false place.lockPlace
  | .unlock _ (.inl place) | .release _ (.inl place) => .giving place
  | .lock _ _ (.inr (.thrdSuccess, _)) | .trylock _ (.inr (.thrdSuccess, _))
  | .acquire _ _ (.inr .osOK) => .taken
  | .unlock _ (.inr (.thrdSuccess, _)) | .release _ (.inr .osOK) => .given
  | _ => .ended

/-- The phase in which a call goes on that has got the word of the mutex. -/
def LockWords.gets (lock : LockWords) (waits : Bool) : MutexPhase :=
  if lock.recursive then .taking waits .first else .taken

/-- Every task has a context of its own. -/
structure OwnContexts (contexts : Word → Word) : Prop where
  distinct : Function.Injective contexts
  nonzero : ∀ task, task ≠ 0 → contexts task ≠ 0

theorem OwnContexts.eq_untag {contexts : Word → Word} (own : OwnContexts contexts) {task value : Word}
    (nonzero : task ≠ 0) (named : ownerContext contexts value = contexts task) :
    task = untag value := by
  rw [ownerContext] at named
  split at named
  · exact (own.nonzero task nonzero named.symm).elim
  · exact own.distinct named.symm

/-- What the operations of the functions have in common. -/
inductive MutexOp (lock : LockWords) (self : Word) : MutexPhase → ThreadOp Unit MutexPlace → Prop
  | owned {waits : Bool} {act} (keeps : ∀ value, (act value).1 = value)
      (goes : ∀ value, (act value).2.phase = .ended ∨
        (act value).2.phase = .taking waits .exchange ∧ (waits → self ≠ untag value) ∨
        (act value).2.phase = .taking waits .again ∧ lock.recursive ∧ self = untag value) :
      MutexOp lock self (.taking waits .owned) (.word lock.value act)
  | again {waits : Bool} {act} (counts : ∀ count, (act count).1 = count + 1)
      (goes : ∀ count, (act count).2.phase = .taken) :
      MutexOp lock self (.taking waits .again) (.word lock.count act)
  | exchange {waits : Bool} {act} (free : (act 0).1 = self ∧ (act 0).2.phase = lock.gets waits)
      (held : ∀ value, value ≠ 0 → (act value).1 = value ∧ ((act value).2.phase = .ended ∨
        waits ∧ ∃ expected, (act value).2.phase = .taking waits (.wait expected))) :
      MutexOp lock self (.taking waits .exchange) (.word lock.value act)
  | wait {waits : Bool} {expected ticks resume}
      (goes : ∀ status, (resume status).phase = .ended ∨ (resume status).phase = .taking waits .check) :
      MutexOp lock self (.taking waits (.wait expected))
        (.service (.wait lock.futex expected ticks) resume)
  | check {waits : Bool} {act} (keeps : ∀ value, (act value).1 = value)
      (goes : ∀ value, (act value).2.phase =
        if self = untag value then lock.gets waits else .taking waits .exchange) :
      MutexOp lock self (.taking waits .check) (.word lock.value act)
  | first {waits : Bool} {act} (counts : ∀ count, (act count).1 = 1)
      (goes : ∀ count, (act count).2.phase = .taken) :
      MutexOp lock self (.taking waits .first) (.word lock.count act)
  | named {act} (keeps : ∀ value, (act value).1 = value)
      (goes : ∀ value, (act value).2.phase = .ended ∨ self = untag value ∧
        (act value).2.phase = .giving (if lock.recursive then .count else .load)) :
      MutexOp lock self (.giving .owned) (.word lock.value act)
  | count {act} (counts : ∀ count, (act count).1 = count - 1)
      (goes : ∀ count, (act count).2.phase =
        if 0 < (count - 1).toInt then .given else .giving .load) :
      MutexOp lock self (.giving .count) (.word lock.count act)
  | load {act} (keeps : ∀ value, (act value).1 = value)
      (goes : ∀ value, (act value).2.phase = .giving (if value = self then .exchange else .wake)) :
      MutexOp lock self (.giving .load) (.word lock.value act)
  | free {act} (own : (act self).1 = 0 ∧ (act self).2.phase = .given)
      (other : ∀ value, value ≠ self → (act value).1 = value ∧ (act value).2.phase = .giving .wake) :
      MutexOp lock self (.giving .exchange) (.word lock.value act)
  | wake {resume} (goes : (resume (.value 0)).phase = .given) :
      MutexOp lock self (.giving .wake) (.service (.wake lock.futex false) resume)

/-- What the calls see of the mutex. -/
@[ext]
structure MutexView where
  value : Word
  count : Word
  waiters : List Word

/-- What a step of a call does to the mutex, and to which phase it leads.  A wait may return at once, or
leave the word tagged; a wake hands the mutex to the first waiter. -/
inductive MutexMoves (lock : LockWords) (self : Word) (view : MutexView) :
    MutexView → MutexPhase → MutexPhase → Prop
  | ends {phase} (early : phase.early) : MutexMoves lock self view view phase .ended
  | differs {waits : Bool} (other : waits → self ≠ untag view.value) :
      MutexMoves lock self view view (.taking waits .owned) (.taking waits .exchange)
  | mine {waits : Bool} (recursive : lock.recursive) (own : self = untag view.value) :
      MutexMoves lock self view view (.taking waits .owned) (.taking waits .again)
  | again {waits : Bool} :
      MutexMoves lock self view { view with count := view.count + 1 } (.taking waits .again) .taken
  | takes {waits : Bool} (free : view.value = 0) :
      MutexMoves lock self view { view with value := self } (.taking waits .exchange) (lock.gets waits)
  | fails {expected : Word} (held : view.value ≠ 0) :
      MutexMoves lock self view view (.taking true .exchange) (.taking true (.wait expected))
  | joins {waits : Bool} {expected : Word} {after : MutexView}
      (count : after.count = view.count) (joins : after = view ∨ after.value = tag view.value) :
      MutexMoves lock self view after (.taking waits (.wait expected)) (.taking waits (.wait expected))
  | returns {waits : Bool} {expected : Word} :
      MutexMoves lock self view view (.taking waits (.wait expected)) (.taking waits .check)
  | handed {waits : Bool} (own : self = untag view.value) :
      MutexMoves lock self view view (.taking waits .check) (lock.gets waits)
  | retries {waits : Bool} (other : self ≠ untag view.value) :
      MutexMoves lock self view view (.taking waits .check) (.taking waits .exchange)
  | counts {waits : Bool} :
      MutexMoves lock self view { view with count := 1 } (.taking waits .first) .taken
  | named (own : self = untag view.value) :
      MutexMoves lock self view view (.giving .owned) (.giving (if lock.recursive then .count else .load))
  | inner (deeper : 0 < (view.count - 1).toInt) :
      MutexMoves lock self view { view with count := view.count - 1 } (.giving .count) .given
  | outermost (last : ¬0 < (view.count - 1).toInt) :
      MutexMoves lock self view { view with count := view.count - 1 } (.giving .count) (.giving .load)
  | loads : MutexMoves lock self view view (.giving .load)
      (.giving (if view.value = self then .exchange else .wake))
  | frees (own : view.value = self) :
      MutexMoves lock self view { view with value := 0 } (.giving .exchange) .given
  | contended (other : view.value ≠ self) :
      MutexMoves lock self view view (.giving .exchange) (.giving .wake)
  | wakes {after : MutexView} (count : after.count = view.count)
      (hands : match view.waiters with
        | [] => after.value = untag view.value ∧ after.waiters = []
        | first :: _ => first ∉ after.waiters ∧ first ≠ self ∧
            after.value = if after.waiters = [] then first else tag first) :
      MutexMoves lock self view after (.giving .wake) .given

namespace MutexMoves

variable {lock : LockWords} {self other : Word} {view after : MutexView} {before then_ : MutexPhase}

/-- A call that relies on the word to name its task is right to do so. -/
theorem names_own (moves : MutexMoves lock self view after before then_) (aligned : Untagged self)
    (own : before.names → self = untag view.value) (names : then_.names) :
    self = untag after.value := by
  cases moves with
  | ends | differs | again | fails | returns | retries | counts | inner | frees | wakes => cases names
  | mine _ same => exact same
  | takes free => exact aligned.symm
  | joins => cases names
  | handed same => exact same
  | named same => exact same
  | outermost => exact own rfl
  | loads => exact own rfl
  | contended => exact own rfl

/-- A step of one task does not touch the name of another one. -/
theorem names_other (moves : MutexMoves lock self view after before then_) (aligned : Untagged self)
    (own : before.names → self = untag view.value) (nonzero : other ≠ 0) (differs : other ≠ self)
    (named : other = untag view.value) : other = untag after.value := by
  cases moves with
  | takes free =>
      rw [free] at named
      exact (nonzero (named.trans untagged_zero)).elim
  | joins count joins =>
      rcases joins with rfl | tagged
      · exact named
      · rw [tagged, untag_tag]
        exact named
  | frees isOwn =>
      rw [isOwn, aligned] at named
      exact (differs named).elim
  | wakes => exact (differs (named.trans (own rfl).symm)).elim
  | _ => exact named

/-- While tasks wait, the contention bit is set. -/
theorem stays_tagged (moves : MutexMoves lock self view after before then_) (aligned : Untagged self)
    (contended : view.waiters ≠ [] → view.value = tag view.value) (wait : after.waiters ≠ []) :
    after.value = tag after.value := by
  cases moves with
  | takes free =>
      have set := contended wait
      rw [free] at set
      exact (tag_ne_zero (by decide) _ set.symm).elim
  | joins count joins =>
      rcases joins with rfl | tagged
      · exact contended wait
      · rw [tagged, tag_tag]
  | frees isOwn =>
      have set := contended wait
      rw [isOwn] at set
      exact (tag_ne_of_untagged (by decide) aligned set.symm).elim
  | wakes count hands =>
      split at hands
      · exact (wait hands.2).elim
      · rw [hands.2.2, if_neg wait, tag_tag]
  | _ => exact contended wait

end MutexMoves

section Operations

variable {contexts : Word → Word} {mutex : RtosMutex} {self : Word}

theorem phase_failed (self msec : Word) (status : Result) :
    (MutexPlace.lock self msec (.inr (LockEnd.failed status).thrd)).phase = .ended := by
  rw [LockEnd.thrd]
  split
  · rfl
  · rfl

theorem phase_failed_acquire (self timeout : Word) (status : Result) :
    (MutexPlace.acquire self timeout (.inr (LockEnd.failed status).status)).phase = .ended := by
  rw [LockEnd.status]
  split
  · rfl
  · rfl

/-- The loop of `_mtx_lock` and `osMutexAcquire`, whatever they return. -/
theorem mutexOp_lockLoop {tries : Bool} {timeout : Word} {place : LockPlace}
    {outer : LockPlace ⊕ LockEnd → MutexPlace}
    (inner : ∀ place, (outer (.inl place)).phase = .taking true place)
    (locked : (outer (.inr .locked)).phase = .taken)
    (others : ∀ ending, ending ≠ .locked → (outer (.inr ending)).phase = .ended) :
    MutexOp mutex.lock self (.taking true place)
      ((lockLoop mutex.lock tries self timeout place).map outer) := by
  have gets : (outer mutex.lock.taken).phase = mutex.lock.gets true := by
    rw [LockWords.taken, LockWords.gets]
    split
    · exact inner .first
    · exact locked
  cases place with
  | owned =>
      refine .owned (fun _ => rfl) fun value => ?_
      dsimp only
      by_cases own : self = untag value
      · rw [if_pos own]
        cases recursive : mutex.lock.recursive with
        | false => exact Or.inl (others .owner (by decide))
        | true => exact Or.inr (Or.inr ⟨inner .again, rfl, own⟩)
      · rw [if_neg own]
        exact Or.inr (Or.inl ⟨inner .exchange, fun _ => own⟩)
  | again => exact .again (fun _ => rfl) fun _ => locked
  | exchange =>
      refine .exchange ⟨rfl, gets⟩ fun value held => ?_
      simp only [if_neg held, true_and]
      split
      · exact Or.inl (others .busy (by decide))
      · exact Or.inr ⟨value, inner _⟩
  | wait expected =>
      refine .wait fun status => ?_
      dsimp only
      split
      · exact Or.inl (others _ fun same => by cases same)
      · exact Or.inr (inner .check)
  | check =>
      refine .check (fun _ => rfl) fun value => ?_
      dsimp only
      split
      · exact gets
      · exact inner .exchange
  | first => exact .first (fun _ => rfl) fun _ => locked

theorem mutexOp_trylock (aligned : Untagged self) (place : TryPlace) :
    MutexOp mutex.lock self (.taking false place.lockPlace)
      ((mtxTrylock mutex.lock self place).map (.trylock self)) := by
  cases place with
  | owned =>
      refine .owned (fun _ => rfl) fun value => ?_
      dsimp only
      by_cases own : mutex.lock.recursive = true ∧ value = self
      · rw [if_pos own]
        exact Or.inr (Or.inr ⟨rfl, own.1, own.2.symm ▸ aligned.symm⟩)
      · rw [if_neg own]
        exact Or.inr (Or.inl ⟨rfl, nofun⟩)
  | again => exact .again (fun _ => rfl) fun _ => rfl
  | exchange =>
      refine .exchange ⟨rfl, ?_⟩ fun value held => ?_
      · simp only [if_true, LockWords.gets]
        split
        · rfl
        · rfl
      · simp only [if_neg held, true_and]
        exact Or.inl rfl
  | first => exact .first (fun _ => rfl) fun _ => rfl

/-- The places of a release after the owner test. -/
theorem mutexOp_unlock {place : UnlockPlace} (tested : place ≠ .owned)
    {outer : UnlockPlace ⊕ ThrdReturn → MutexPlace}
    (inner : ∀ place, (outer (.inl place)).phase = .giving place)
    (given : ∀ errno, (outer (.inr (.thrdSuccess, errno))).phase = .given) :
    MutexOp mutex.lock self (.giving place) ((mtxUnlock mutex.lock self place).map outer) := by
  cases place with
  | owned => exact (tested rfl).elim
  | count =>
      refine .count (fun _ => rfl) fun count => ?_
      dsimp only
      split
      · exact given none
      · exact inner .load
  | load =>
      refine .load (fun _ => rfl) fun value => ?_
      exact inner _
  | exchange =>
      refine .free ?_ fun value differs => ?_
      · simp only [if_true, true_and]
        exact given none
      · simp only [if_neg differs, true_and]
        exact inner .wake
  | wake => exact .wake (given none)

theorem mutexOp_of_op (own : OwnContexts contexts) {place : MutexPlace}
    (nonzero : place.self ≠ 0) (aligned : Untagged place.self) {op : ThreadOp Unit MutexPlace}
    (isNext : (mutexProgram contexts mutex).op place = some op) :
    MutexOp mutex.lock place.self place.phase op := by
  rcases place with ⟨self, msec, place | _⟩ | ⟨self, place | _⟩ | ⟨self, place | _⟩ |
      ⟨self, timeout, place | _⟩ | ⟨self, place | _⟩
  · obtain rfl := Option.some_inj.mp isNext
    rw [mtxLockFor, Op.map_map]
    refine mutexOp_lockLoop (fun _ => rfl) rfl ?_
    intro ending differs
    cases ending with
    | locked => exact (differs rfl).elim
    | failed status => exact phase_failed self msec status
    | owner => rfl
    | busy => rfl
  · cases isNext
  · obtain rfl := Option.some_inj.mp isNext
    exact mutexOp_trylock aligned place
  · cases isNext
  · obtain rfl := Option.some_inj.mp isNext
    by_cases first : place = .owned
    · subst first
      refine .named (fun _ => rfl) fun value => ?_
      dsimp only
      split
      · exact Or.inl rfl
      · rename_i named
        refine Or.inr ⟨not_not.mp named, ?_⟩
        split
        · rfl
        · rfl
    · exact mutexOp_unlock first (fun _ => rfl) fun _ => rfl
  · cases isNext
  · obtain rfl := Option.some_inj.mp isNext
    rw [osMutexAcquire, Op.map_map]
    refine mutexOp_lockLoop (fun _ => rfl) rfl ?_
    intro ending differs
    cases ending with
    | locked => exact (differs rfl).elim
    | failed status => exact phase_failed_acquire self timeout status
    | owner => rfl
    | busy => rfl
  · cases isNext
  · obtain rfl := Option.some_inj.mp isNext
    by_cases first : place = .owned
    · subst first
      refine .named (fun _ => rfl) fun value => ?_
      dsimp only
      by_cases named : ownerContext contexts value = contexts self
      · rw [if_neg (not_not_intro named)]
        refine Or.inr ⟨own.eq_untag nonzero named, ?_⟩
        split
        · rfl
        · rfl
      · rw [if_pos named]
        exact Or.inl rfl
    · have rest : (osMutexRelease contexts mutex self place : ThreadOp Unit (UnlockPlace ⊕ OsStatus)) =
          (mtxUnlock mutex.lock self place).map (Sum.map id releaseStatus) := by
        cases place with
        | owned => exact (first rfl).elim
        | _ => rfl
      rw [rest, Op.map_map]
      exact mutexOp_unlock first (fun _ => rfl) fun _ => rfl
  · cases isNext

def OpKeepsSelf (self : Word) : ThreadOp Unit MutexPlace → Prop
  | .word _ act => ∀ value, (act value).2.self = self
  | .data act => ∀ data, (act data).2.self = self
  | .service _ resume => ∀ status, (resume status).self = self

theorem opKeepsSelf_map {Inner : Type} (inner : ThreadOp Unit Inner) {outer : Inner → MutexPlace}
    (same : ∀ inside, (outer inside).self = self) : OpKeepsSelf self (inner.map outer) := by
  cases inner with
  | _ => exact fun _ => same _

theorem opKeepsSelf {place : MutexPlace} {op : ThreadOp Unit MutexPlace}
    (isNext : (mutexProgram contexts mutex).op place = some op) : OpKeepsSelf place.self op := by
  rcases place with ⟨self, msec, place | _⟩ | ⟨self, place | _⟩ | ⟨self, place | _⟩ |
      ⟨self, timeout, place | _⟩ | ⟨self, place | _⟩
  · exact Option.some_inj.mp isNext ▸ opKeepsSelf_map _ fun _ => rfl
  · cases isNext
  · exact Option.some_inj.mp isNext ▸ opKeepsSelf_map _ fun _ => rfl
  · cases isNext
  · exact Option.some_inj.mp isNext ▸ opKeepsSelf_map _ fun _ => rfl
  · cases isNext
  · exact Option.some_inj.mp isNext ▸ opKeepsSelf_map _ fun _ => rfl
  · cases isNext
  · exact Option.some_inj.mp isNext ▸ opKeepsSelf_map _ fun _ => rfl
  · cases isNext

end Operations

section System

variable {cores : Nat}

def RtosMutex.cells (mutex : RtosMutex) (address : Word) : Bool :=
  decide (address = mutex.lock.value ∨ address = mutex.lock.count)

def State.mutexView (mutex : RtosMutex) (state : State Links cores) : MutexView where
  value := state.memory mutex.lock.value
  count := state.memory mutex.lock.count
  waiters := state.queue (.waiters mutex.lock.futex)

/-- A mutex that has just been set up, and that nobody uses yet. -/
structure MutexBegins [NeZero cores] (mutex : RtosMutex) (inherits : Bool)
    (machine : Machine cores Unit MutexPlace) : Prop where
  kernel : (scheduler cores).Reachable machine.kernel
  apart : mutex.lock.value ≠ mutex.lock.count
  view : machine.kernel.mutexView mutex = ⟨0, 0, []⟩
  entry : machine.kernel.futex mutex.lock.futex = mutex.entry inherits
  others : ∀ futex, futex ≠ mutex.lock.futex → mutex.cells (machine.kernel.futex futex).value = false
  calls : machine.calls = []
  calling : machine.calling = fun _ => none

variable [NeZero cores]

/-- A call belongs to the task that makes it, no handler calls, and the rest of the system does not use
the futex. -/
def UsesMutex (mutex : RtosMutex) (machine : Machine cores Unit MutexPlace) :
    Label cores MutexEntry → Prop
  | .kernel action =>
      match event machine.kernel action with
      | .wait _ futex _ | .wake futex _ | .initFutex futex _ _ => futex ≠ mutex.lock.futex
      | _ => True
  | .call core entry => machine.kernel.currentTask core = some entry.self
  | .interrupt _ _ => False
  | .act _ _ => True

instance (mutex : RtosMutex) (machine : Machine cores Unit MutexPlace)
    (label : Label cores MutexEntry) : Decidable (UsesMutex mutex machine label) := by
  unfold UsesMutex
  split
  · split
    · infer_instance
    · infer_instance
    · infer_instance
    · infer_instance
  · infer_instance
  · infer_instance
  · infer_instance

def mutexSystem (cores : Nat) [NeZero cores] (contexts : Word → Word) (mutex : RtosMutex)
    (inherits : Bool) : System (Machine cores Unit MutexPlace) (Label cores MutexEntry) where
  initial := MutexBegins mutex inherits
  step machine label :=
    if UsesMutex mutex machine label then
      Machine.step (mutexProgram contexts mutex) mutex.cells machine label
    else none

/-- The scheduler and the calls are as the functions of the mutex expect them. -/
structure MutexSound (mutex : RtosMutex) (inherits : Bool) (machine : Machine cores Unit MutexPlace) :
    Prop where
  reached : (scheduler cores).Reachable machine.kernel
  owns : machine.Owns
  apart : mutex.lock.value ≠ mutex.lock.count
  entry : machine.kernel.futex mutex.lock.futex = mutex.entry inherits
  others : ∀ futex, futex ≠ mutex.lock.futex → mutex.cells (machine.kernel.futex futex).value = false
  callers : ∀ task call, machine.callOf task = some call →
    task ≠ 0 ∧ Untagged task ∧ call.place.self = task
  tasks : ∀ call ∈ machine.calls, ∃ task, call.owner = .task task
  named : ∀ task call, machine.callOf task = some call → call.place.phase.names →
    task = untag (machine.kernel.mutexView mutex).value
  contended : (machine.kernel.mutexView mutex).waiters ≠ [] →
    (machine.kernel.mutexView mutex).value = tag (machine.kernel.mutexView mutex).value

variable {contexts : Word → Word} {mutex : RtosMutex} {inherits : Bool}
  {machine next : Machine cores Unit MutexPlace} {label : Label cores MutexEntry} {core : Fin cores}
  {index : Nat} {call : Call cores MutexPlace} {task : Word}

theorem listed_of_current {state : State Links cores} (reached : (scheduler cores).Reachable state)
    (runs : state.currentTask core = some task) : task ∈ state.view.tasks := by
  obtain ⟨_, abstractly⟩ := (scheduler_simulation cores).reachable reached
  have placed := placed_of_reachable abstractly task
  have running : (state.task task).state = .running := placed.running.mpr ⟨core, runs⟩
  refine placed.listed.mpr fun dormant => ?_
  rw [show (state.plain.whereabouts task).state = _ from running] at dormant
  cases dormant

theorem aligned_current {state : State Links cores} (reached : (scheduler cores).Reachable state)
    (runs : state.currentTask core = some task) : task ≠ 0 ∧ Untagged task :=
  (ordered_of_reachable reached).aligned task (listed_of_current reached runs)

/-- The next step of a call that is the last one of the task which runs on a core. -/
structure MutexActs (mutex : RtosMutex) (machine next : Machine cores Unit MutexPlace) (core : Fin cores)
    (index : Nat) (task : Word) (call after : Call cores MutexPlace) : Prop where
  runs : machine.kernel.currentTask core = some task
  acting : machine.calls[index]? = some call
  caller : call.owner = .task task
  last : machine.callOf task = some call
  becomes : next.callOf task = some after
  found : next.calls[index]? = some after
  owner : after.owner = .task task
  others : ∀ other, other ≠ task → next.callOf other = machine.callOf other
  self : after.place.self = task
  futexes : next.kernel.futex = machine.kernel.futex
  moves : MutexMoves mutex.lock task (machine.kernel.mutexView mutex) (next.kernel.mutexView mutex) call.place.phase
    after.place.phase

theorem MutexActs.mk' {after : Call cores MutexPlace} (sound : MutexSound mutex inherits machine)
    (moved : Machine.step (mutexProgram contexts mutex) mutex.cells machine (.act core index) = some next)
    (found : machine.calls[index]? = some call) (owner : call.owner = .task task)
    (calls : next.calls = machine.calls.set index after) (same : after.owner = call.owner)
    (self : after.place.self = call.place.self) (futexes : next.kernel.futex = machine.kernel.futex)
    (moves : MutexMoves mutex.lock task (machine.kernel.mutexView mutex) (next.kernel.mutexView mutex)
      call.place.phase after.place.phase) :
    MutexActs mutex machine next core index task call after := by
  have bound : index < machine.calls.length := (List.getElem?_eq_some_iff.mp found).1
  obtain ⟨runs, isCalling⟩ := Machine.current_of_runs (Machine.act_found moved found).1 owner
  have last : machine.callOf task = some call := Machine.callOf_eq.mpr ⟨index, isCalling, found⟩
  obtain ⟨_, _, _, _, _, calling, _⟩ := Machine.calls_of_act moved
  have isThere : next.calls[index]? = some after := by
    rw [calls, List.getElem?_set_self bound]
  refine ⟨runs, found, owner, last, ?_, isThere, same.trans owner, ?_,
    self.trans (sound.callers task call last).2.2, futexes, moves⟩
  · exact Machine.callOf_eq.mpr ⟨index, calling ▸ isCalling, isThere⟩
  · intro other different
    rcases Machine.callOf_of_step sound.owns moved other with same | ⟨_, _, same⟩ | ⟨_, _, same, _⟩ |
        ⟨_, _, acting, same, _, foundOther, ownerOther, _⟩
    · exact same
    · cases same
    · cases same
    · cases same
      obtain rfl := Option.some_inj.mp (found.symm.trans foundOther)
      exact (different (Owner.task.inj (ownerOther.symm.trans owner))).elim

omit [NeZero cores] in
theorem mutexView_value {state : State Links cores} (apart : mutex.lock.value ≠ mutex.lock.count)
    (value : Word) : (state.setMemory mutex.lock.value value).mutexView mutex =
      { state.mutexView mutex with value := value } := by
  refine MutexView.ext ?_ ?_ rfl
  · exact Function.update_self _ _ _
  · exact Function.update_of_ne (Ne.symm apart) _ _

omit [NeZero cores] in
theorem mutexView_count {state : State Links cores} (apart : mutex.lock.value ≠ mutex.lock.count)
    (count : Word) : (state.setMemory mutex.lock.count count).mutexView mutex =
      { state.mutexView mutex with count := count } := by
  refine MutexView.ext ?_ ?_ rfl
  · exact Function.update_of_ne apart _ _
  · exact Function.update_self _ _ _

omit [NeZero cores] in
/-- What an operation on one of the words does to the mutex. -/
theorem moves_of_word {state : State Links cores} {phase : MutexPhase} {address : Word}
    {act : Word → Word × MutexPlace} (apart : mutex.lock.value ≠ mutex.lock.count)
    (op : MutexOp mutex.lock task phase (.word address act)) :
    MutexMoves mutex.lock task (state.mutexView mutex)
      ((state.setMemory address (act (state.memory address)).1).mutexView mutex) phase
      (act (state.memory address)).2.phase := by
  have same : ∀ {act : Word → Word × MutexPlace}, (∀ value, (act value).1 = value) →
      (state.setMemory mutex.lock.value (act (state.memory mutex.lock.value)).1).mutexView mutex =
        state.mutexView mutex := by
    intro act keeps
    rw [mutexView_value apart, keeps]
    rfl
  cases op with
  | owned keeps goes =>
      rw [same keeps]
      rcases goes (state.memory mutex.lock.value) with ended | ⟨on, other⟩ | ⟨on, recursive, own⟩
      · rw [ended]
        exact .ends rfl
      · rw [on]
        exact .differs other
      · rw [on]
        exact .mine recursive own
  | again counts goes =>
      rw [mutexView_count apart, counts, goes]
      exact .again
  | exchange free held =>
      by_cases isFree : state.memory mutex.lock.value = 0
      · rw [mutexView_value apart, isFree, free.1, free.2]
        exact .takes isFree
      · obtain ⟨keeps, ended | ⟨waits, expected, on⟩⟩ := held _ isFree
        · rw [mutexView_value apart, keeps, ended]
          exact .ends rfl
        · rw [mutexView_value apart, keeps, on]
          rw [waits]
          exact .fails isFree
  | check keeps goes =>
      rw [same keeps, goes]
      split
      · rename_i own
        exact .handed own
      · rename_i other
        exact .retries other
  | first counts goes =>
      rw [mutexView_count apart, counts, goes]
      exact .counts
  | named keeps goes =>
      rw [same keeps]
      rcases goes (state.memory mutex.lock.value) with ended | ⟨own, on⟩
      · rw [ended]
        exact .ends rfl
      · rw [on]
        exact .named own
  | count counts goes =>
      rw [mutexView_count apart, counts, goes]
      split
      · rename_i deeper
        exact .inner deeper
      · rename_i last
        exact .outermost last
  | load keeps goes =>
      rw [same keeps, goes]
      exact .loads
  | free own other =>
      by_cases isOwn : state.memory mutex.lock.value = task
      · rw [mutexView_value apart, isOwn, own.1, own.2]
        exact .frees isOwn
      · obtain ⟨keeps, on⟩ := other _ isOwn
        rw [mutexView_value apart, keeps, on]
        exact .contended isOwn

omit [NeZero cores] in
theorem mutexView_of_view {state next : State Links cores} (same : next.view = state.view) :
    next.mutexView mutex = state.mutexView mutex := by
  refine MutexView.ext ?_ ?_ ?_
  · exact congrArg (fun view : View => view.memory mutex.lock.value) same
  · exact congrArg (fun view : View => view.memory mutex.lock.count) same
  · exact congrArg (fun view : View => view.waiters mutex.lock.futex) same

theorem waitValue_tracked {entry : Futex} (tracks : entry.Tracks) (expected : Word) :
    waitValue entry expected = tag expected := if_pos tracks.contention

theorem event_futexWait (core : Fin cores) (state : State Links cores) (futex expected ticks : Word) :
    event state (.futexWait core futex expected ticks) = .quiet ∨ ∃ waiter,
      event state (.futexWait core futex expected ticks) = .wait waiter futex expected := by
  simp only [event]
  split
  · exact Or.inl rfl
  · rename_i waiter _
    split
    · exact Or.inr ⟨waiter, rfl⟩
    · exact Or.inl rfl

theorem moves_of_wait {state next : State Links cores} {expected known ticks : Word} {waits : Bool}
    (reached : (scheduler cores).Reachable state) (apart : mutex.lock.value ≠ mutex.lock.count)
    (entry : state.futex mutex.lock.futex = mutex.entry inherits)
    (moved : step state (.futexWait core mutex.lock.futex expected ticks) = some next) :
    MutexMoves mutex.lock task (state.mutexView mutex) (next.mutexView mutex)
      (.taking waits (.wait known)) (.taking waits (.wait known)) := by
  obtain ⟨enabled, performed⟩ := @view_transition _ _ state next
    (.futexWait core mutex.lock.futex expected ticks) reached moved
  rcases event_futexWait core state mutex.lock.futex expected ticks with quiet | ⟨waiter, waits⟩
  · rw [quiet] at performed
    rw [mutexView_of_view (Option.some_inj.mp performed).symm]
    exact .joins rfl (Or.inl rfl)
  · rw [waits] at enabled performed
    have tracks : (state.view.futex mutex.lock.futex).Tracks := by
      change (state.futex mutex.lock.futex).Tracks
      rw [entry]
      exact RobustSet.tracks_entry mutex inherits
    have word : (state.view.futex mutex.lock.futex).value = mutex.lock.value :=
      congrArg Futex.value entry
    have tagged : tag expected = tag (state.view.value mutex.lock.futex) := by
      rcases enabled.2.2 with seen | seen
      · rw [seen]
      · rw [seen, waitValue_tracked tracks, tag_tag]
    have memory : next.memory = Function.update state.memory mutex.lock.value
        (tag (state.memory mutex.lock.value)) := by
      have after := congrArg View.memory (Option.some_inj.mp performed).symm
      rw [View.memory_wait, waitValue_tracked tracks, tagged, View.value, word] at after
      exact after
    refine .joins ?_ (Or.inr ?_)
    · change next.memory mutex.lock.count = _
      rw [memory, Function.update_of_ne (Ne.symm apart)]
      rfl
    · change next.memory mutex.lock.value = _
      rw [memory, Function.update_self]
      rfl

theorem moves_of_wake {state next : State Links cores}
    (reached : (scheduler cores).Reachable state) (apart : mutex.lock.value ≠ mutex.lock.count)
    (entry : state.futex mutex.lock.futex = mutex.entry inherits)
    (runs : state.currentTask core = some task) (own : task = untag (state.mutexView mutex).value)
    (moved : step state (.futexWake core mutex.lock.futex false) = some next) :
    MutexMoves mutex.lock task (state.mutexView mutex) (next.mutexView mutex) (.giving .wake) .given := by
  have performed : state.view.wake mutex.lock.futex false = some next.view :=
    (@view_transition _ _ state next (.futexWake core mutex.lock.futex false) reached moved).2
  have ordered := ordered_of_reachable reached
  have tracks : (state.view.futex mutex.lock.futex).Tracks := by
    change (state.futex mutex.lock.futex).Tracks
    rw [entry]
    exact RobustSet.tracks_entry mutex inherits
  have word : (state.view.futex mutex.lock.futex).value = mutex.lock.value :=
    congrArg Futex.value entry
  have owner : state.view.owner mutex.lock.futex = task := by
    rw [View.owner, View.value, word, own]
    rfl
  have idle : ∀ queue, ¬state.view.Waits (state.view.owner mutex.lock.futex) queue := by
    rw [owner]
    exact fun _ => notWaits_of_current reached runs
  obtain ⟨value, memory, tagged, hands⟩ := View.memory_wake performed tracks idle
  obtain ⟨woken, wakes⟩ := View.exists_wakes performed
  have left := View.waiters_wake performed idle mutex.lock.futex
  rw [word] at memory
  have count : (next.mutexView mutex).count = (state.mutexView mutex).count := by
    change next.view.memory mutex.lock.count = _
    rw [memory, Function.update_of_ne (Ne.symm apart)]
    rfl
  have becomes : (next.mutexView mutex).value = value := by
    change next.view.memory mutex.lock.value = _
    rw [memory, Function.update_self]
  have queue : (state.mutexView mutex).waiters = state.view.waiters mutex.lock.futex := rfl
  have remain : (next.mutexView mutex).waiters = next.view.waiters mutex.lock.futex := rfl
  refine .wakes count ?_
  rw [queue, remain, becomes]
  cases waiters : state.view.waiters mutex.lock.futex with
  | nil =>
      rw [waiters] at hands
      refine ⟨hands.trans (owner.trans own), ?_⟩
      rw [left, View.leftBehind, waiters]
      rfl
  | cons first rest =>
      rw [waiters] at hands
      have waits : state.view.Waits first mutex.lock.futex := by
        rw [View.Waits, waiters]
        exact List.mem_cons_self
      have aligned : untag first = first :=
        (ordered.aligned first (ordered.listed first _ waits)).2
      refine ⟨?_, fun same => notWaits_of_current reached runs (same ▸ waits), ?_⟩
      · rw [left, View.leftBehind, waiters]
        simp
      · split
        · rename_i none
          have plain : untag value = value := by
            have exact_ := congrFun (memory.symm.trans wakes.memory) mutex.lock.value
            simp only [word, Function.update_self, View.wokenValue, tracks.contention, none,
              List.isEmpty_nil, Bool.not_true, Bool.false_eq_true, if_true, if_false] at exact_
            rw [exact_]
            exact untag_untag _
          rw [← plain, hands, aligned]
        · rename_i some
          rw [tagged some, hands, aligned]

theorem futex_of_action {state next : State Links cores} {action : Action cores}
    (reached : (scheduler cores).Reachable state) (moved : step state action = some next)
    (others : ∀ futex value flags, action ≠ .futexInit futex value flags) :
    next.futex = state.futex := by
  funext futex
  refine View.futex_of_perform (view_transition reached moved).2 fun value flags isInit => ?_
  have source := event_from state action
  rw [isInit] at source
  exact others futex value flags source

theorem mutexActs_of_step (own : OwnContexts contexts) (sound : MutexSound mutex inherits machine)
    (moved : Machine.step (mutexProgram contexts mutex) mutex.cells machine (.act core index) =
      some next) : ∃ task call after, MutexActs mutex machine next core index task call after := by
  obtain ⟨call, _, found, _⟩ := Machine.calls_of_act moved
  obtain ⟨runs, acted⟩ := Machine.act_found moved found
  obtain ⟨task, owner⟩ := sound.tasks call (List.mem_of_getElem? found)
  obtain ⟨isCurrent, isCalling⟩ := Machine.current_of_runs runs owner
  have last : machine.callOf task = some call := Machine.callOf_eq.mpr ⟨index, isCalling, found⟩
  obtain ⟨nonzero, aligned, isSelf⟩ := sound.callers task call last
  refine ⟨task, call, ?_⟩
  cases isNext : (mutexProgram contexts mutex).op call.place with
  | none =>
      simp only [Machine.act, isNext] at acted
      cases acted
  | some op =>
      have keeps := opKeepsSelf isNext
      have isOp := mutexOp_of_op own (isSelf.symm ▸ nonzero) (isSelf.symm ▸ aligned) isNext
      rw [isSelf] at isOp
      generalize phase : call.place.phase = before at isOp
      cases op with
      | word address act =>
          obtain rfl := Machine.act_word isNext acted
          refine ⟨{ call with place := (act (machine.kernel.memory address)).2, waiting := false },
            .mk' sound moved found owner rfl rfl (keeps _) rfl ?_⟩
          rw [phase]
          exact moves_of_word sound.apart isOp
      | data act => cases isOp
      | service request resume =>
          cases isOp with
          | wait goes =>
              obtain ⟨waiter, isWaiter, happens⟩ := Machine.act_wait isNext acted
              rcases happens with ⟨_, rfl⟩ | ⟨_, kernel, stepped, rfl⟩
              · refine ⟨{ call with
                    place := resume (machine.kernel.answer waiter), waiting := false },
                  .mk' sound moved found owner rfl rfl (keeps _) rfl ?_⟩
                rw [phase]
                rcases goes (machine.kernel.answer waiter) with ended | on
                · rw [ended]
                  exact .ends rfl
                · rw [on]
                  exact .returns
              · refine ⟨{ call with waiting := true }, .mk' sound moved found owner rfl rfl rfl
                (futex_of_action sound.reached stepped fun _ _ _ same => by cases same) ?_⟩
                rw [phase]
                exact moves_of_wait sound.reached sound.apart sound.entry stepped
          | wake goes =>
              obtain ⟨kernel, stepped, rfl⟩ := Machine.act_wake isNext acted
              rw [owner] at stepped
              have named := sound.named task call last (by rw [phase]; rfl)
              refine ⟨{ call with place := resume (.value 0), waiting := false },
                .mk' sound moved found owner ?_ rfl (keeps _)
                  (futex_of_action sound.reached stepped fun _ _ _ same => by cases same) ?_⟩
              · rw [Machine.advance, owner]
                rfl
              · rw [phase, goes]
                exact moves_of_wake sound.reached sound.apart sound.entry isCurrent named stepped

omit [NeZero cores] in
theorem checked_twice {Place : Type} (first second : OsStatus) (place : Place) :
    osChecked first (osChecked second (.inl place)) = .inl place ∨
      ∃ error, error ≠ .osOK ∧ osChecked first (osChecked second (.inl place)) = .inr error := by
  rcases osChecked_cases first (osChecked second (.inl place)) with same | error
  · rw [same]
    exact osChecked_cases second (.inl place)
  · exact Or.inr error

theorem fresh_enter (mutex : RtosMutex) (context : Context) (entry : MutexEntry) :
    (mutexEnter mutex (context, entry)).phase.fresh ∧
      (mutexEnter mutex (context, entry)).self = entry.self := by
  obtain ⟨self, call⟩ := entry
  cases call with
  | mtxTimedlock timed ticks tm =>
      simp only [mutexEnter]
      split
      · exact ⟨rfl, rfl⟩
      · split
        · exact ⟨rfl, rfl⟩
        · exact ⟨rfl, rfl⟩
  | osMutexAcquire timeout =>
      refine ⟨?_, rfl⟩
      rw [mutexEnter, osMutexAcquireStart]
      rcases checked_twice (osKernelContextIsValid false 0 context)
          (osIsResourceValid mutex.marker rtosMutexMarker) LockPlace.owned with same | ⟨error, fails, same⟩
      · rw [same]
        rfl
      · rw [same]
        cases error with
        | osOK => exact (fails rfl).elim
        | _ => rfl
  | osMutexRelease =>
      refine ⟨?_, rfl⟩
      rw [mutexEnter, osMutexReleaseStart]
      rcases checked_twice (osKernelContextIsValid false 0 context)
          (osIsResourceValid mutex.marker rtosMutexMarker) UnlockPlace.owned with same | ⟨error, fails, same⟩
      · rw [same]
        rfl
      · rw [same]
        cases error with
        | osOK => exact (fails rfl).elim
        | _ => rfl
  | mtxLock => exact ⟨rfl, rfl⟩
  | mtxTrylock => exact ⟨rfl, rfl⟩
  | mtxUnlock => exact ⟨rfl, rfl⟩

/-- A step of anything but a call leaves the words alone, and puts nobody into the queue. -/
structure MutexRests (mutex : RtosMutex) (machine next : Machine cores Unit MutexPlace) : Prop where
  value : (next.kernel.mutexView mutex).value = (machine.kernel.mutexView mutex).value
  count : (next.kernel.mutexView mutex).count = (machine.kernel.mutexView mutex).count
  waiters : ∀ task ∈ (next.kernel.mutexView mutex).waiters,
    task ∈ (machine.kernel.mutexView mutex).waiters
  futexes : ∀ futex, next.kernel.futex futex = machine.kernel.futex futex ∨
    futex ≠ mutex.lock.futex ∧ mutex.cells (next.kernel.futex futex).value = false
  calls : ∀ task call, next.callOf task = some call → machine.callOf task = some call ∨
    call.place.phase.fresh ∧ call.place.self = task ∧ task ≠ 0 ∧ Untagged task

/-- Events that do not concern a word leave it alone. -/
theorem View.memory_of_spared {view next : View} {event : Event} {address : Word}
    (done : view.perform event = some next)
    (apart : match event with
      | .wait _ futex _ | .wake futex _ => (view.futex futex).value ≠ address
      | .store other _ => other ≠ address
      | _ => True) : next.memory address = view.memory address := by
  cases event with
  | wait waiter futex expected =>
      obtain rfl := Option.some_inj.mp done
      rw [memory_wait, Function.update_of_ne (Ne.symm apart)]
  | wake futex all =>
      obtain ⟨woken, wakes⟩ := exists_wakes done
      rw [wakes.memory, Function.update_of_ne (Ne.symm apart)]
  | store other value =>
      obtain rfl := Option.some_inj.mp done
      exact Function.update_of_ne (Ne.symm apart) _ _
  | _ =>
      obtain rfl := Option.some_inj.mp done
      rfl

theorem memory_of_kernel (sound : MutexSound mutex inherits machine) {action : Action cores}
    (uses : UsesMutex mutex machine (.kernel action))
    (moved : Machine.step (mutexProgram contexts mutex) mutex.cells machine (.kernel action) = some next)
    {address : Word} (isCell : mutex.cells address) :
    next.kernel.memory address = machine.kernel.memory address := by
  obtain ⟨allowed, stepped, _⟩ := Machine.calling_of_kernel moved
  have performed := (view_transition sound.reached stepped).2
  have source := event_from machine.kernel action
  have guarded : ∀ futex, futex ≠ mutex.lock.futex →
      (machine.kernel.futex futex).value ≠ address := by
    intro futex other same
    have spared := sound.others futex other
    rw [same, isCell] at spared
    cases spared
  simp only [UsesMutex] at uses
  generalize event machine.kernel action = event at performed source uses
  refine View.memory_of_spared performed ?_
  cases event with
  | wait waiter futex expected => exact guarded futex uses
  | wake futex all => exact guarded futex uses
  | store other value =>
      obtain rfl := source
      rintro rfl
      simp [foreign, Action.spares, isCell] at allowed
  | _ => trivial

theorem futex_of_kernel (sound : MutexSound mutex inherits machine) {action : Action cores}
    (uses : UsesMutex mutex machine (.kernel action))
    (moved : Machine.step (mutexProgram contexts mutex) mutex.cells machine (.kernel action) = some next)
    (futex : Word) : next.kernel.futex futex = machine.kernel.futex futex ∨
      futex ≠ mutex.lock.futex ∧ mutex.cells (next.kernel.futex futex).value = false := by
  obtain ⟨allowed, stepped, _⟩ := Machine.calling_of_kernel moved
  by_cases isInit : ∃ value flags, action = .futexInit futex value flags
  · obtain ⟨value, flags, rfl⟩ := isInit
    refine Or.inr ⟨uses, ?_⟩
    have performed := (@view_transition _ _ machine.kernel next.kernel (.futexInit futex value flags)
      sound.reached stepped).2
    have becomes : next.kernel.futex = _ := congrArg View.futex (Option.some_inj.mp performed).symm
    rw [becomes]
    simp only [View.initFutex, Function.update_self]
    simpa [foreign, Action.spares, Action.caller] using allowed
  · refine Or.inl (View.futex_of_perform (view_transition sound.reached stepped).2 ?_)
    intro value flags same
    have source := event_from machine.kernel action
    rw [same] at source
    exact isInit ⟨value, flags, source⟩

/-- A step of anything but a call. -/
theorem mutexRests_of_step (sound : MutexSound mutex inherits machine)
    (uses : UsesMutex mutex machine label) (notAct : ∀ core index, label ≠ .act core index)
    (moved : Machine.step (mutexProgram contexts mutex) mutex.cells machine label = some next) :
    MutexRests mutex machine next := by
  cases label with
  | act core index => exact (notAct core index rfl).elim
  | interrupt core entry => exact uses.elim
  | call core entry =>
      obtain ⟨caller, runs, _, rfl⟩ := Machine.calls_of_call moved
      obtain rfl : caller = entry.self := Option.some_inj.mp (runs.symm.trans uses)
      refine ⟨rfl, rfl, fun _ => id, fun _ => Or.inl rfl, ?_⟩
      intro task call last
      rcases Machine.callOf_of_step sound.owns moved task with same | ⟨_, _, same⟩ |
          ⟨on, other, same, isCaller, _⟩ | ⟨_, _, _, same, _⟩
      · exact Or.inl (same ▸ last)
      · cases same
      · cases same
        obtain rfl : task = entry.self := Option.some_inj.mp (isCaller.symm.trans runs)
        obtain ⟨index, isCalling, found⟩ := Machine.callOf_eq.mp last
        simp only [Function.update_self, Option.some_inj] at isCalling
        subst isCalling
        rw [List.getElem?_append_right (Nat.le_refl _), Nat.sub_self] at found
        obtain rfl := Option.some_inj.mp found
        obtain ⟨fresh, self⟩ := fresh_enter mutex .thread entry
        exact Or.inr ⟨fresh, self, aligned_current sound.reached runs⟩
      · cases same
  | kernel action =>
      obtain ⟨_, stepped, _⟩ := Machine.calling_of_kernel moved
      refine ⟨memory_of_kernel sound uses moved ?_, memory_of_kernel sound uses moved ?_, ?_,
        futex_of_kernel sound uses moved, ?_⟩
      · simp [RtosMutex.cells]
      · simp [RtosMutex.cells]
      · intro task waits
        rcases waits_of_step sound.reached stepped waits with old | ⟨on, expected, ticks, rfl, runs, seen⟩
        · exact old
        · simp only [UsesMutex, event] at uses
          have current : schedGetCurrent on machine.kernel = some task := runs
          rw [current] at uses
          simp only [if_pos seen] at uses
          exact (uses rfl).elim
      · intro task call last
        rcases Machine.callOf_of_step sound.owns moved task with same | ⟨creator, descriptor, same⟩ |
            ⟨_, _, same, _⟩ | ⟨_, _, _, same, _⟩
        · exact Or.inl (same ▸ last)
        · obtain rfl := Label.kernel.inj same
          obtain ⟨index, isCalling, _⟩ := Machine.callOf_eq.mp last
          obtain ⟨_, moved⟩ := Option.ite_none_right_eq_some.mp moved
          obtain ⟨kernel, _, rfl⟩ := Option.map_eq_some_iff.mp moved
          simp at isCalling
        · cases same
        · cases same

theorem reached_of_step (reached : (scheduler cores).Reachable machine.kernel)
    (moved : Machine.step (mutexProgram contexts mutex) mutex.cells machine label = some next) :
    (scheduler cores).Reachable next.kernel := by
  have kernel := Machine.kernel_of_step moved
  cases isAction : machine.action (mutexProgram contexts mutex) label with
  | none =>
      rw [isAction] at kernel
      exact (show next.kernel = _ from kernel) ▸ reached
  | some action =>
      rw [isAction] at kernel
      exact reached.step kernel

theorem tasks_of_step (uses : UsesMutex mutex machine label)
    (tasks : ∀ call ∈ machine.calls, ∃ task, call.owner = .task task)
    (moved : Machine.step (mutexProgram contexts mutex) mutex.cells machine label = some next) :
    ∀ call ∈ next.calls, ∃ task, call.owner = .task task := by
  intro other member
  cases label with
  | kernel action => exact tasks other ((Machine.calling_of_kernel moved).2.2.1 ▸ member)
  | interrupt core entry => exact uses.elim
  | call core entry =>
      obtain ⟨caller, _, _, rfl⟩ := Machine.calls_of_call moved
      rcases List.mem_append.mp member with before | isNew
      · exact tasks other before
      · rw [List.mem_singleton.mp isNew]
        exact ⟨caller, rfl⟩
  | act core index =>
      obtain ⟨call, moving, found, _, calls, _, sameOwner⟩ := Machine.calls_of_act moved
      rw [calls] at member
      rcases List.mem_or_eq_of_mem_set member with before | rfl
      · exact tasks other before
      · exact sameOwner ▸ tasks call (List.mem_of_getElem? found)

theorem MutexSound.callers_of_step (sound : MutexSound mutex inherits machine)
    (happens : MutexRests mutex machine next ∨ ∃ core index task call after,
      MutexActs mutex machine next core index task call after) {task : Word}
    {call : Call cores MutexPlace} (last : next.callOf task = some call) :
    (task ≠ 0 ∧ Untagged task ∧ call.place.self = task) ∧
      (call.place.phase.names → task = untag (next.kernel.mutexView mutex).value) := by
  rcases happens with rests | ⟨core, index, mover, before, after, acts⟩
  · rcases rests.calls task call last with same | ⟨fresh, self, nonzero, aligned⟩
    · refine ⟨sound.callers task call same, ?_⟩
      rw [rests.value]
      exact sound.named task call same
    · refine ⟨⟨nonzero, aligned, self⟩, fun names => ?_⟩
      cases phase : call.place.phase with
      | taking waits place =>
          rw [phase] at fresh names
          cases place with
          | owned => cases names
          | _ => cases fresh
      | giving place =>
          rw [phase] at fresh names
          cases place with
          | owned => cases names
          | _ => cases fresh
      | _ =>
          rw [phase] at names
          cases names
  · obtain ⟨nonzero, aligned, _⟩ := sound.callers mover before acts.last
    have own := sound.named mover before acts.last
    by_cases same : task = mover
    · subst same
      obtain rfl := Option.some_inj.mp (acts.becomes.symm.trans last)
      exact ⟨⟨nonzero, aligned, acts.self⟩, acts.moves.names_own aligned own⟩
    · rw [acts.others task same] at last
      refine ⟨sound.callers task call last, fun names => ?_⟩
      exact acts.moves.names_other aligned own (sound.callers task call last).1 same
        (sound.named task call last names)

theorem MutexSound.step (own : OwnContexts contexts) (sound : MutexSound mutex inherits machine)
    (uses : UsesMutex mutex machine label)
    (moved : Machine.step (mutexProgram contexts mutex) mutex.cells machine label = some next) :
    MutexSound mutex inherits next ∧ (MutexRests mutex machine next ∨ ∃ core index task call after,
      label = .act core index ∧ MutexActs mutex machine next core index task call after) := by
  have happens : MutexRests mutex machine next ∨ ∃ core index task call after,
      label = .act core index ∧ MutexActs mutex machine next core index task call after := by
    by_cases isAct : ∃ core index, label = .act core index
    · obtain ⟨core, index, rfl⟩ := isAct
      obtain ⟨task, call, after, acts⟩ := mutexActs_of_step own sound moved
      exact Or.inr ⟨core, index, task, call, after, rfl, acts⟩
    · exact Or.inl (mutexRests_of_step sound uses
        (fun core index same => isAct ⟨core, index, same⟩) moved)
  refine ⟨?_, happens⟩
  have forgets : MutexRests mutex machine next ∨ ∃ core index task call after,
      MutexActs mutex machine next core index task call after :=
    happens.imp_right fun ⟨core, index, task, call, after, _, acts⟩ =>
      ⟨core, index, task, call, after, acts⟩
  have futexes : ∀ futex, next.kernel.futex futex = machine.kernel.futex futex ∨
      futex ≠ mutex.lock.futex ∧ mutex.cells (next.kernel.futex futex).value = false := by
    rcases forgets with rests | ⟨_, _, _, _, _, acts⟩
    · exact rests.futexes
    · exact fun futex => Or.inl (congrFun acts.futexes futex)
  refine ⟨reached_of_step sound.reached moved, sound.owns.step moved, sound.apart, ?_, ?_, ?_,
    tasks_of_step uses sound.tasks moved, ?_, ?_⟩
  · exact ((futexes mutex.lock.futex).resolve_right fun other => other.1 rfl).trans sound.entry
  · intro futex other
    rcases futexes futex with same | ⟨_, spared⟩
    · exact same ▸ sound.others futex other
    · exact spared
  · exact fun task call last => (sound.callers_of_step forgets last).1
  · exact fun task call last => (sound.callers_of_step forgets last).2
  · rcases forgets with rests | ⟨_, _, mover, before, _, acts⟩
    · intro wait
      rw [rests.value]
      refine sound.contended fun none => wait ?_
      exact List.eq_nil_iff_forall_not_mem.mpr fun task member => by
        have old := rests.waiters task member
        rw [none] at old
        cases old
    · exact acts.moves.stays_tagged (sound.callers mover before acts.last).2.1 sound.contended

theorem MutexBegins.sound (begins : MutexBegins mutex inherits machine) :
    MutexSound mutex inherits machine := by
  have idle : ∀ task, machine.callOf task = none := by
    intro task
    rw [Machine.callOf, begins.calling]
    rfl
  refine ⟨begins.kernel, ?_, begins.apart, begins.entry, begins.others, ?_, ?_, ?_, ?_⟩
  · intro task index isCalling
    rw [begins.calling] at isCalling
    cases isCalling
  · intro task call last
    rw [idle] at last
    cases last
  · intro call member
    rw [begins.calls] at member
    cases member
  · intro task call last
    rw [idle] at last
    cases last
  · rw [begins.view]
    exact fun some => (some rfl).elim

/-- Whatever happens, the functions of the mutex find the scheduler and the word as they expect them. -/
theorem mutexSound_of_reachable (own : OwnContexts contexts)
    (reached : (mutexSystem cores contexts mutex inherits).Reachable machine) :
    MutexSound mutex inherits machine := by
  refine reached.invariant (fun _ begins => MutexBegins.sound begins) ?_
  intro machine label next sound moved
  obtain ⟨uses, moved⟩ := Option.ite_none_right_eq_some.mp moved
  exact (sound.step own uses moved).1

end System

end PicoToolkit
