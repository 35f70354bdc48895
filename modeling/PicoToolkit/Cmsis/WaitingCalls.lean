import PicoToolkit.Cmsis.EventFlags
import PicoToolkit.Cmsis.ObjectStore

/-!
The calls that wait on semaphores, mutexes, event flags, memory pools and message queues, and those that wake
their waiters, as code: where they validate an object, and where they wait in the futex of one.
-/

namespace PicoToolkit.Waiting

open Objects Tag

def osMutexRecursive : Word := 0x00000001
def osMutexPrioInherit : Word := 0x00000002

/-- The words of a control block that such calls compute with: that of the futex, and the others of a semaphore
and of a mutex. -/
inductive ObjectWord where
  | value
  | maxCount
  | count
  deriving DecidableEq

/-- Code that reads fields, changes the waiters of event flags or other words at once, and uses the futex of an
object.  What is left open is chosen: whether a block is one of the pool, and whether there is a message. -/
inductive UseCode (Return : Type) where
  | done (result : Return)
  | load (object : RtosObject) (field : ObjectField) (next : Word → UseCode Return)
  | waiters (eventflags : EventFlagsId) (change : Word → Word) (next : UseCode Return)
  | word (object : RtosObject) (word : ObjectWord) (change : Word → Word) (next : Word → UseCode Return)
  | wait (object : RtosObject) (expected ticks : Word) (next : Result → UseCode Return)
  | wake (object : RtosObject) (all : Bool) (next : Result → UseCode Return)
  | choose (next : Bool → UseCode Return)
  | exit
  | unfinished

namespace UseCode

variable {Return Other : Type}

def bind (code : UseCode Return) (rest : Return → UseCode Other) : UseCode Other :=
  match code with
  | .done result => rest result
  | .load object field next => .load object field fun found => (next found).bind rest
  | .waiters eventflags change next => .waiters eventflags change (next.bind rest)
  | .word object kind change next => .word object kind change fun found => (next found).bind rest
  | .wait object expected ticks next => .wait object expected ticks fun status => (next status).bind rest
  | .wake object all next => .wake object all fun status => (next status).bind rest
  | .choose next => .choose fun chosen => (next chosen).bind rest
  | .exit => .exit
  | .unfinished => .unfinished

instance : Monad UseCode where
  pure := .done
  bind := .bind

end UseCode

def update (object : RtosObject) (word : ObjectWord) (change : Word → Word) : UseCode Word :=
  .word object word change .done

def changeWaiters (eventflags : EventFlagsId) (change : Word → Word) : UseCode Unit :=
  .waiters eventflags change (.done ())

def schedulerFutexWait (object : RtosObject) (expected ticks : Word) : UseCode Result :=
  .wait object expected ticks .done

def schedulerFutexWake (object : RtosObject) (all : Bool) : UseCode Result := .wake object all .done

def ifContext {Return : Type} (context : Context) (allowed : Bool) (timeout : Word)
    (failed : OsStatus → Return) (rest : UseCode Return) : UseCode Return :=
  let status := osKernelContextIsValid allowed timeout context
  if status = .osOK then rest else return failed status

/-- A function goes on only if `osIsResourceValid` finds the marker of the object. -/
def ifValid {Return : Type} (object : RtosObject) (failed : OsStatus → Return) (rest : UseCode Return) :
    UseCode Return :=
  .load object .marker fun found =>
    let status := PicoToolkit.osIsResourceValid found object.marker
    if status = .osOK then rest else return failed status

/-- `status == -ETIMEDOUT || status == -ECANCELED ? osErrorTimeout : osError` -/
def waitFailed (status : Result) : OsStatus :=
  if status = .error .etimedout ∨ status = .error .ecanceled then .osErrorTimeout else .osError

section Functions

variable (context : Context)

section Semaphore

variable (semaphore : SemaphoreId)

/-- The loop of `osSemaphoreAcquire`, for a number of rounds that a call does not exceed. -/
def acquireToken (timeout : Word) : Nat → Word → UseCode OsStatus
  | 0, _ => .unfinished
  | rounds + 1, expected => do
      let found ← update (.semaphore semaphore) .value fun value =>
        if value = expected then expected - 1 else value
      if found = expected then return .osOK
      else if found ≠ 0 then acquireToken timeout rounds found
      else if timeout = 0 then return .osErrorResource
      else
        let status ← schedulerFutexWait (.semaphore semaphore) 0 timeout
        if status.negative then return waitFailed status else acquireToken timeout rounds 1

def osSemaphoreAcquire (timeout : Word) (rounds : Nat) : UseCode OsStatus :=
  ifContext context true timeout id <| ifValid (.semaphore semaphore) id <|
    acquireToken semaphore timeout rounds 1

def osSemaphoreRelease : UseCode OsStatus :=
  ifContext context true 0 id <| ifValid (.semaphore semaphore) id do
    let value ← update (.semaphore semaphore) .value id
    let maxCount ← update (.semaphore semaphore) .maxCount id
    if maxCount ≤ value then return .osErrorResource
    else
      let before ← update (.semaphore semaphore) .value (· + 1)
      if before = 0 then
        let _ ← schedulerFutexWake (.semaphore semaphore) false
        return .osOK
      else return .osOK

def osSemaphoreGetCount : UseCode Word :=
  ifContext context true 0 OsStatus.code <| ifValid (.semaphore semaphore) (fun _ => 0) <|
    update (.semaphore semaphore) .value id

end Semaphore

section Mutex

variable (self : Word) (mutex : MutexId)

def recursive : Prop := mutex.attrBits &&& osMutexRecursive ≠ 0

instance : Decidable (recursive mutex) := inferInstanceAs (Decidable (_ ≠ _))

def firstCount : UseCode OsStatus :=
  if recursive mutex then do
    let _ ← update (.mutex mutex) .count fun _ => 1
    return .osOK
  else return .osOK

/-- The loop of `osMutexAcquire`, for a number of rounds that a call does not exceed. -/
def lockMutex (timeout : Word) : Nat → UseCode OsStatus
  | 0 => .unfinished
  | rounds + 1 => do
      let found ← update (.mutex mutex) .value fun value => if value = 0 then self else value
      if found = 0 then firstCount mutex
      else if timeout = 0 then return .osErrorResource
      else
        let status ← schedulerFutexWait (.mutex mutex) found timeout
        if status.negative then return waitFailed status
        else
          let value ← update (.mutex mutex) .value id
          if self = untag value then firstCount mutex else lockMutex timeout rounds

def osMutexAcquire (timeout : Word) (rounds : Nat) : UseCode OsStatus :=
  ifContext context false 0 id <| ifValid (.mutex mutex) id do
    let value ← update (.mutex mutex) .value id
    if self = untag value then
      if recursive mutex then
        let _ ← update (.mutex mutex) .count (· + 1)
        return .osOK
      else return .osErrorParameter
    else lockMutex self mutex timeout rounds

def osMutexGetOwner : UseCode Word :=
  ifContext context false 0 (fun _ => 0) <| ifValid (.mutex mutex) (fun _ => 0) do
    let value ← update (.mutex mutex) .value id
    return untag value

/-- The end of `osMutexRelease`, for a mutex that somebody may wait for. -/
def wakeNext : UseCode OsStatus := do
  let status ← schedulerFutexWake (.mutex mutex) false
  return if status.negative then .osError else .osOK

def unlockMutex : UseCode OsStatus := do
  let value ← update (.mutex mutex) .value id
  if value = self then
    let found ← update (.mutex mutex) .value fun value => if value = self then 0 else value
    if found = self then return .osOK else wakeNext mutex
  else wakeNext mutex

def osMutexRelease : UseCode OsStatus :=
  ifContext context false 0 id <| ifValid (.mutex mutex) id do
    let owner ← osMutexGetOwner context mutex
    if owner ≠ self then return .osErrorResource
    else if recursive mutex then
      let count ← update (.mutex mutex) .count (· - 1)
      if 0 < (count - 1).toInt then return .osOK else unlockMutex self mutex
    else unlockMutex self mutex

end Mutex

section EventFlags

variable (eventflags : EventFlagsId)

def osEventFlagsSet (flags : Word) : UseCode Word :=
  if flags &&& osFlagsError ≠ 0 then return osFlagsErrorParameter
  else ifValid (.eventFlags eventflags) (fun _ => osFlagsErrorParameter) do
    let prevFlags ← update (.eventFlags eventflags) .value (· ||| flags)
    if prevFlags &&& flags = flags then return prevFlags
    else
      let status ← schedulerFutexWake (.eventFlags eventflags) true
      return if status.negative then osFlagsError else prevFlags ||| flags

/-- The loop of `osEventFlagsWait`, for a number of rounds that a call does not exceed. -/
def awaitFlags (wish : FlagsWish) (timeout : Word) : Nat → UseCode Word
  | 0 => .unfinished
  | rounds + 1 => do
      let prevFlags ← update (.eventFlags eventflags) .value id
      if wish.satisfied prevFlags then
        changeWaiters eventflags (· - 1)
        update (.eventFlags eventflags) .value (· &&& wish.clear)
      else if timeout = 0 then
        changeWaiters eventflags (· - 1)
        return osFlagsErrorResource
      else if prevFlags &&& osFlagsError ≠ 0 then
        changeWaiters eventflags (· - 1)
        .exit
      else
        let status ← schedulerFutexWait (.eventFlags eventflags) prevFlags timeout
        if status.negative then
          changeWaiters eventflags (· - 1)
          return (waitFailed status).code
        else awaitFlags wish timeout rounds

def osEventFlagsWait (wish : FlagsWish) (timeout : Word) (rounds : Nat) : UseCode Word :=
  if wish.flags &&& osFlagsError ≠ 0 then return osFlagsErrorParameter
  else ifContext context true timeout OsStatus.code <|
    ifValid (.eventFlags eventflags) OsStatus.code do
      changeWaiters eventflags (· + 1)
      awaitFlags eventflags wish timeout rounds

end EventFlags

section Pool

variable (pool : PoolId)

def osMemoryPoolAlloc (timeout : Word) (rounds : Nat) : UseCode Bool :=
  ifContext context true timeout (fun _ => false) <| ifValid (.memoryPool pool) (fun _ => false) do
    let status ← osSemaphoreAcquire context (.poolSemaphore pool) timeout rounds
    return decide (status = .osOK)

def osMemoryPoolFree : UseCode OsStatus :=
  ifContext context true 0 id <| ifValid (.memoryPool pool) id do
    let inRange ← UseCode.choose .done
    if inRange then osSemaphoreRelease context (.poolSemaphore pool) else return .osErrorParameter

end Pool

section MessageQueue

variable (queue : Word)

def osMessageQueuePut (msgPtr timeout : Word) (rounds : Nat) : UseCode OsStatus :=
  if msgPtr = 0 then return .osErrorParameter
  else ifContext context true timeout id <| ifValid (.messageQueue queue) id do
    let message ← osMemoryPoolAlloc context (.messagePool queue) timeout rounds
    if message = false then return if timeout = 0 then .osErrorResource else .osErrorTimeout
    else
      let status ← osSemaphoreRelease context (.dataAvailable queue)
      if status = .osOK then return status
      else
        let _ ← osMemoryPoolFree context (.messagePool queue)
        return status

def osMessageQueueGet (msgPtr timeout : Word) (rounds : Nat) : UseCode OsStatus :=
  if msgPtr = 0 then return .osErrorParameter
  else ifContext context true timeout id <| ifValid (.messageQueue queue) id do
    let status ← osSemaphoreAcquire context (.dataAvailable queue) timeout rounds
    if status ≠ .osOK then return if timeout = 0 then .osErrorResource else .osErrorTimeout
    else
      let message ← UseCode.choose .done
      if message then osMemoryPoolFree context (.messagePool queue) else return .osError

/-- The loop of `osMessageQueueReset`, for a number of messages that a call does not exceed. -/
def discardMessages (rounds : Nat) : Nat → UseCode OsStatus
  | 0 => .unfinished
  | messages + 1 => do
      let count ← osSemaphoreGetCount context (.dataAvailable queue)
      if count = 0 then return .osOK
      else
        let status ← osSemaphoreAcquire context (.dataAvailable queue) osWaitForever rounds
        if status ≠ .osOK then return status
        else
          let message ← UseCode.choose .done
          if message = false then return .osError
          else
            let status ← osMemoryPoolFree context (.messagePool queue)
            if status ≠ .osOK then return status else discardMessages rounds messages

def osMessageQueueReset (messages rounds : Nat) : UseCode OsStatus :=
  ifContext context false 0 id <| ifValid (.messageQueue queue) id <|
    discardMessages context queue rounds messages

end MessageQueue

end Functions

/-- A call that uses an object which has been made by itself, with the numbers of rounds of its loops. -/
inductive UseCall where
  | osSemaphoreAcquire (semaphore timeout : Word) (rounds : Nat)
  | osSemaphoreRelease (semaphore : Word)
  | osMutexAcquire (mutex : MutexId) (timeout : Word) (rounds : Nat)
  | osMutexRelease (mutex : MutexId)
  | osEventFlagsWait (eventflags : Word) (wish : FlagsWish) (timeout : Word) (rounds : Nat)
  | osEventFlagsSet (eventflags flags : Word)
  | osMemoryPoolAlloc (pool timeout : Word) (rounds : Nat)
  | osMemoryPoolFree (pool : Word)
  | osMessageQueuePut (queue msgPtr timeout : Word) (rounds : Nat)
  | osMessageQueueGet (queue msgPtr timeout : Word) (rounds : Nat)
  | osMessageQueueReset (queue : Word) (messages rounds : Nat)

def UseCall.code (context : Context) (self : Word) : UseCall → UseCode Word
  | .osSemaphoreAcquire semaphore timeout rounds =>
      OsStatus.code <$> Waiting.osSemaphoreAcquire context (.own semaphore) timeout rounds
  | .osSemaphoreRelease semaphore => OsStatus.code <$> Waiting.osSemaphoreRelease context (.own semaphore)
  | .osMutexAcquire mutex timeout rounds =>
      OsStatus.code <$> Waiting.osMutexAcquire context self mutex timeout rounds
  | .osMutexRelease mutex => OsStatus.code <$> Waiting.osMutexRelease context self mutex
  | .osEventFlagsWait eventflags wish timeout rounds =>
      Waiting.osEventFlagsWait context (.own eventflags) wish timeout rounds
  | .osEventFlagsSet eventflags flags => Waiting.osEventFlagsSet (.own eventflags) flags
  | .osMemoryPoolAlloc pool timeout rounds =>
      (fun block => if block then 1 else 0) <$> Waiting.osMemoryPoolAlloc context (.own pool) timeout rounds
  | .osMemoryPoolFree pool => OsStatus.code <$> Waiting.osMemoryPoolFree context (.own pool)
  | .osMessageQueuePut queue msgPtr timeout rounds =>
      OsStatus.code <$> Waiting.osMessageQueuePut context queue msgPtr timeout rounds
  | .osMessageQueueGet queue msgPtr timeout rounds =>
      OsStatus.code <$> Waiting.osMessageQueueGet context queue msgPtr timeout rounds
  | .osMessageQueueReset queue messages rounds =>
      OsStatus.code <$> Waiting.osMessageQueueReset context queue messages rounds

def enclosing : RtosObject → List RtosObject
  | .semaphore (.poolSemaphore (.own pool)) =>
      [.semaphore (.poolSemaphore (.own pool)), .memoryPool (.own pool)]
  | .semaphore (.poolSemaphore (.messagePool queue)) =>
      [.semaphore (.poolSemaphore (.messagePool queue)), .memoryPool (.messagePool queue), .messageQueue queue]
  | .semaphore (.dataAvailable queue) => [.semaphore (.dataAvailable queue), .messageQueue queue]
  | object => [object]

/-- Whatever it finds, the code does not wait in an object, or in a part of it, unless it validates that object
first. -/
def Quiet {Return : Type} (object : RtosObject) : UseCode Return → Prop
  | .done _ | .exit | .unfinished => True
  | .load other field next => ∀ found,
      (other = object ∧ field = .marker ∧ PicoToolkit.osIsResourceValid found object.marker = .osOK) ∨
        Quiet object (next found)
  | .waiters _ _ next => Quiet object next
  | .word _ _ _ next => ∀ found, Quiet object (next found)
  | .wait other _ _ next => object ∉ enclosing other ∧ ∀ status, Quiet object (next status)
  | .wake _ _ next => ∀ status, Quiet object (next status)
  | .choose next => ∀ chosen, Quiet object (next chosen)

section Quiet

variable {Return Other : Type} {object : RtosObject} {code : UseCode Return}
  {rest : Return → UseCode Other} {context : Context}

theorem Quiet.bind (first : Quiet object code) (later : ∀ result, Quiet object (rest result)) :
    Quiet object (code >>= rest) := by
  induction code with
  | done result => exact later result
  | load other field next ih =>
      intro found
      rcases first found with validates | quiet
      · exact Or.inl validates
      · exact Or.inr (ih found quiet)
  | waiters eventflags change next ih => exact ih first
  | word other kind change next ih => exact fun found => ih found (first found)
  | wait other expected ticks next ih => exact ⟨first.1, fun status => ih status (first.2 status)⟩
  | wake other all next ih => exact fun status => ih status (first status)
  | choose next ih => exact fun chosen => ih chosen (first chosen)
  | exit => trivial
  | unfinished => trivial

theorem Quiet.map {change : Return → Other} (quiet : Quiet object code) :
    Quiet object (change <$> code) :=
  quiet.bind fun _ => trivial

theorem Quiet.update {other : RtosObject} {kind : ObjectWord} {change : Word → Word}
    {rest : Word → UseCode Other} (later : ∀ found, Quiet object (rest found)) :
    Quiet object (update other kind change >>= rest) := later

theorem Quiet.wake {other : RtosObject} {all : Bool} {rest : Result → UseCode Other}
    (later : ∀ status, Quiet object (rest status)) :
    Quiet object (schedulerFutexWake other all >>= rest) := later

theorem Quiet.wait {other : RtosObject} {expected ticks : Word} {rest : Result → UseCode Other}
    (apart : object ∉ enclosing other) (later : ∀ status, Quiet object (rest status)) :
    Quiet object (schedulerFutexWait other expected ticks >>= rest) := ⟨apart, later⟩

theorem Quiet.ite {condition : Prop} [Decidable condition] {other : UseCode Return}
    (yes : Quiet object code) (no : Quiet object other) :
    Quiet object (if condition then code else other) := by
  split
  · exact yes
  · exact no

theorem Quiet.ifContext {allowed : Bool} {timeout : Word} {failed : OsStatus → Return}
    (quiet : Quiet object code) : Quiet object (ifContext context allowed timeout failed code) :=
  .ite quiet trivial

theorem Quiet.ifValid {other : RtosObject} {failed : OsStatus → Return}
    (quiet : other ≠ object → Quiet object code) : Quiet object (ifValid other failed code) := by
  intro found
  by_cases same : other = object
  · subst same
    by_cases valid : PicoToolkit.osIsResourceValid found other.marker = .osOK
    · exact Or.inl ⟨rfl, rfl, valid⟩
    · right
      simp only [valid, if_false]
      trivial
  · exact Or.inr (.ite (quiet same) trivial)

theorem quiet_acquireToken {semaphore : SemaphoreId} (timeout : Word)
    (apart : object ∉ enclosing (.semaphore semaphore)) (rounds : Nat) (expected : Word) :
    Quiet object (acquireToken semaphore timeout rounds expected) := by
  induction rounds generalizing expected with
  | zero => trivial
  | succ rounds ih =>
      refine Quiet.update fun found => .ite trivial (.ite (ih found) (.ite trivial ?_))
      exact .wait apart fun status => .ite trivial (ih 1)

theorem quiet_osSemaphoreAcquire {semaphore : SemaphoreId} (timeout : Word) (rounds : Nat)
    (apart : .semaphore semaphore ≠ object → object ∉ enclosing (.semaphore semaphore)) :
    Quiet object (osSemaphoreAcquire context semaphore timeout rounds) :=
  .ifContext (.ifValid fun other => quiet_acquireToken timeout (apart other) rounds 1)

theorem quiet_osSemaphoreRelease (semaphore : SemaphoreId) :
    Quiet object (osSemaphoreRelease context semaphore) := by
  refine .ifContext (.ifValid fun _ => .update fun value => .update fun maxCount => .ite trivial ?_)
  exact .update fun before => .ite (.wake fun _ => trivial) trivial

theorem quiet_osSemaphoreGetCount (semaphore : SemaphoreId) :
    Quiet object (osSemaphoreGetCount context semaphore) :=
  .ifContext (.ifValid fun _ _ => trivial)

theorem quiet_firstCount (mutex : MutexId) : Quiet object (firstCount mutex) :=
  .ite (.update fun _ => trivial) trivial

theorem quiet_lockMutex {self : Word} {mutex : MutexId} (timeout : Word)
    (apart : object ∉ enclosing (.mutex mutex)) (rounds : Nat) :
    Quiet object (lockMutex self mutex timeout rounds) := by
  induction rounds with
  | zero => trivial
  | succ rounds ih =>
      refine Quiet.update fun found => .ite (quiet_firstCount mutex) (.ite trivial ?_)
      refine .wait apart fun status => .ite trivial (.update fun value => ?_)
      exact .ite (quiet_firstCount mutex) ih

theorem quiet_osMutexAcquire (self : Word) (mutex : MutexId) (timeout : Word) (rounds : Nat) :
    Quiet object (osMutexAcquire context self mutex timeout rounds) := by
  refine .ifContext (.ifValid fun other => .update fun value => .ite ?_ ?_)
  · exact .ite (.update fun _ => trivial) trivial
  · have apart : object ∉ enclosing (.mutex mutex) := fun inside =>
      other (List.mem_singleton.mp inside).symm
    exact quiet_lockMutex timeout apart rounds

theorem quiet_unlockMutex (self : Word) (mutex : MutexId) : Quiet object (unlockMutex self mutex) := by
  have wakes : Quiet object (wakeNext mutex) := Quiet.wake fun _ => trivial
  exact Quiet.update fun value => .ite (.update fun found => .ite trivial wakes) wakes

theorem quiet_osMutexRelease (self : Word) (mutex : MutexId) :
    Quiet object (osMutexRelease context self mutex) := by
  have owner : Quiet object (osMutexGetOwner context mutex) :=
    .ifContext (.ifValid fun _ => .update fun _ => trivial)
  refine .ifContext (.ifValid fun _ => owner.bind fun found => .ite trivial (.ite ?_ ?_))
  · exact .update fun count => .ite trivial (quiet_unlockMutex self mutex)
  · exact quiet_unlockMutex self mutex

theorem quiet_awaitFlags {eventflags : EventFlagsId} (wish : FlagsWish) (timeout : Word)
    (apart : object ∉ enclosing (.eventFlags eventflags)) (rounds : Nat) :
    Quiet object (awaitFlags eventflags wish timeout rounds) := by
  have leaves : ∀ {rest : UseCode Word} {change : Word → Word}, Quiet object rest →
      Quiet object (changeWaiters eventflags change >>= fun _ => rest) := fun quiet => quiet
  induction rounds with
  | zero => trivial
  | succ rounds ih =>
      refine Quiet.update fun prevFlags => .ite (leaves fun _ => trivial) ?_
      refine .ite (leaves trivial) (.ite (leaves trivial) ?_)
      exact .wait apart fun status => .ite (leaves trivial) ih

theorem quiet_osEventFlagsWait (eventflags : Word) (wish : FlagsWish) (timeout : Word) (rounds : Nat) :
    Quiet object (osEventFlagsWait context (.own eventflags) wish timeout rounds) := by
  refine .ite trivial (.ifContext (.ifValid fun other => ?_))
  have apart : object ∉ enclosing (.eventFlags (.own eventflags)) := fun inside =>
    other (List.mem_singleton.mp inside).symm
  exact quiet_awaitFlags wish timeout apart rounds

theorem quiet_osEventFlagsSet (eventflags : EventFlagsId) (flags : Word) :
    Quiet object (osEventFlagsSet eventflags flags) :=
  .ite trivial (.ifValid fun _ => .update fun _ => .ite trivial (.wake fun _ => trivial))

theorem quiet_osMemoryPoolAlloc {pool : PoolId} (timeout : Word) (rounds : Nat)
    (apart : .memoryPool pool ≠ object → .semaphore (.poolSemaphore pool) ≠ object →
      object ∉ enclosing (.semaphore (.poolSemaphore pool))) :
    Quiet object (osMemoryPoolAlloc context pool timeout rounds) := by
  refine .ifContext (.ifValid fun otherPool => .bind ?_ fun status => trivial)
  exact quiet_osSemaphoreAcquire timeout rounds (apart otherPool)

theorem quiet_osMemoryPoolFree (pool : PoolId) : Quiet object (osMemoryPoolFree context pool) := by
  refine .ifContext (.ifValid fun _ inRange => ?_)
  exact .ite (quiet_osSemaphoreRelease (.poolSemaphore pool)) trivial

theorem quiet_acquireMessage {queue : Word} (timeout : Word) (rounds : Nat)
    (other : .messageQueue queue ≠ object) :
    Quiet object (osSemaphoreAcquire context (.dataAvailable queue) timeout rounds) := by
  refine quiet_osSemaphoreAcquire timeout rounds fun otherSemaphore inside => ?_
  rcases List.mem_cons.mp inside with same | same
  · exact otherSemaphore same.symm
  · exact other (List.mem_singleton.mp same).symm

theorem quiet_osMessageQueuePut (queue msgPtr timeout : Word) (rounds : Nat) :
    Quiet object (osMessageQueuePut context queue msgPtr timeout rounds) := by
  refine .ite trivial (.ifContext (.ifValid fun other => .bind ?_ fun message => .ite trivial ?_))
  · refine quiet_osMemoryPoolAlloc timeout rounds fun otherPool otherSemaphore inside => ?_
    simp only [enclosing, List.mem_cons, List.not_mem_nil, or_false] at inside
    rcases inside with same | same | same
    · exact otherSemaphore same.symm
    · exact otherPool same.symm
    · exact other same.symm
  · refine (quiet_osSemaphoreRelease _).bind fun status => .ite trivial ?_
    exact (quiet_osMemoryPoolFree _).bind fun _ => trivial

theorem quiet_osMessageQueueGet (queue msgPtr timeout : Word) (rounds : Nat) :
    Quiet object (osMessageQueueGet context queue msgPtr timeout rounds) := by
  refine .ite trivial (.ifContext (.ifValid fun other => .bind ?_ fun status => .ite trivial ?_))
  · exact quiet_acquireMessage timeout rounds other
  · exact fun message => .ite (quiet_osMemoryPoolFree _) trivial

theorem quiet_discardMessages {queue : Word} (rounds : Nat) (other : .messageQueue queue ≠ object)
    (messages : Nat) : Quiet object (discardMessages context queue rounds messages) := by
  induction messages with
  | zero => trivial
  | succ messages ih =>
      refine (quiet_osSemaphoreGetCount _).bind fun count => .ite trivial ?_
      refine (quiet_acquireMessage _ rounds other).bind fun status => .ite trivial fun message => ?_
      refine .ite trivial ((quiet_osMemoryPoolFree _).bind fun status => ?_)
      exact .ite trivial ih

theorem quiet_code (self : Word) (call : UseCall) : Quiet object (call.code context self) := by
  cases call with
  | osSemaphoreAcquire semaphore timeout rounds =>
      refine .map (quiet_osSemaphoreAcquire timeout rounds fun other inside => ?_)
      exact other (List.mem_singleton.mp inside).symm
  | osSemaphoreRelease semaphore => exact (quiet_osSemaphoreRelease _).map
  | osMutexAcquire mutex timeout rounds => exact (quiet_osMutexAcquire self mutex timeout rounds).map
  | osMutexRelease mutex => exact (quiet_osMutexRelease self mutex).map
  | osEventFlagsWait eventflags wish timeout rounds =>
      exact quiet_osEventFlagsWait eventflags wish timeout rounds
  | osEventFlagsSet eventflags flags => exact quiet_osEventFlagsSet _ flags
  | osMemoryPoolAlloc pool timeout rounds =>
      refine .map (quiet_osMemoryPoolAlloc timeout rounds fun otherPool otherSemaphore inside => ?_)
      rcases List.mem_cons.mp inside with same | same
      · exact otherSemaphore same.symm
      · exact otherPool (List.mem_singleton.mp same).symm
  | osMemoryPoolFree pool => exact (quiet_osMemoryPoolFree _).map
  | osMessageQueuePut queue msgPtr timeout rounds =>
      exact (quiet_osMessageQueuePut queue msgPtr timeout rounds).map
  | osMessageQueueGet queue msgPtr timeout rounds =>
      exact (quiet_osMessageQueueGet queue msgPtr timeout rounds).map
  | osMessageQueueReset queue messages rounds =>
      exact .map (.ifContext (.ifValid fun other => quiet_discardMessages rounds other messages))

end Quiet

end PicoToolkit.Waiting
