import PicoToolkit.Cmsis.Deque
import PicoToolkit.Cmsis.MessageQueue
import PicoToolkit.Cmsis.Mutex
import PicoToolkit.Cmsis.Threads
import PicoToolkit.Cmsis.Timers
import PicoToolkit.Library.Locking

/-!
The objects of the CMSIS-RTOS2 layer: their constructors and destructors, and the lists of all objects of a
kind, with a lock each.  A call is code that goes through lists, the fields of control blocks, and requests to
the scheduler and to the allocator.
-/

namespace PicoToolkit.Objects

open Locking

inductive OsResourceId where
  | osResourceThread
  | osResourceMutex
  | osResourceRobustMutex
  | osResourceMemoryPool
  | osResourceSemaphore
  | osResourceEventFlags
  | osResourceTimer
  | osResourceMessageQueue
  | osResourceDeque
  deriving DecidableEq

def osMutexRobust : Word := 0x00000008

structure MutexId where
  address : Word
  attrBits : Word
  deriving DecidableEq

inductive PoolId where
  | own (address : Word)
  | messagePool (queue : Word)
  deriving DecidableEq

inductive SemaphoreId where
  | own (address : Word)
  | poolSemaphore (pool : PoolId)
  | dataAvailable (queue : Word)
  deriving DecidableEq

inductive EventFlagsId where
  | own (address : Word)
  | flags (thread : Word)
  | joiner (thread : Word)
  | events (deque : Word)
  deriving DecidableEq

inductive RtosObject where
  | thread (address : Word)
  | mutex (id : MutexId)
  | memoryPool (id : PoolId)
  | semaphore (id : SemaphoreId)
  | eventFlags (id : EventFlagsId)
  | timer (address : Word)
  | messageQueue (address : Word)
  | deque (address : Word)
  deriving DecidableEq

inductive ListId where
  | resource (id : OsResourceId)
  | activeTimers
  deriving DecidableEq

inductive ObjectNode where
  | resource (object : RtosObject)
  | active (timer : Word)
  deriving DecidableEq

inductive ObjectField where
  | marker
  | attrBits
  | waiters
  | type
  | ticks
  | target
  deriving DecidableEq

/-- What a call asks the scheduler, the allocator or other objects for; the reaper has a list of its own. -/
inductive ObjectRequest where
  | allocate
  | schedulerCreate (thread : Word)
  | schedulerGetState (thread : Word)
  | currentThread
  | kernelRunning
  | eventFlagsWait (id : EventFlagsId)
  | threadFlagsWait
  | mutexValue (id : MutexId)
  | mutexContext (id : MutexId)
  | mutexRobustRelease (id : MutexId) (thread : Word)
  | callOnce
  | getTicks
  | messageQueuePut (timer : Word)
  | addToReapList (object : RtosObject)
  | reapListIsEmpty
  | popFromReapList
  deriving DecidableEq

inductive ObjectEffect where
  | load (object : RtosObject) (field : ObjectField)
  | store (object : RtosObject) (field : ObjectField) (value : Word)
  | release (object : RtosObject)
  | ask (request : ObjectRequest)
  deriving DecidableEq

abbrev RtosOp := Op ListId ObjectNode ObjectEffect

abbrev RtosCode := Code ListId ObjectNode ObjectEffect Word

def spinLockIrqsave (list : ListId) : RtosCode Unit := Code.act (.lock list)

def spinUnlockIrqrestore (list : ListId) : RtosCode Unit := Code.act (.unlock list)

def listAdd (list : ListId) (node : ObjectNode) : RtosCode Unit := Code.act (.insert list node)

def listRemove (node : ObjectNode) : RtosCode Unit := Code.act (.remove node)

def listIsLinked (node : ObjectNode) : RtosCode Bool := Code.act (.isLinked node)

def listForEach (list : ListId) : RtosCode (List ObjectNode) := Code.act (.traverse list)

def load (object : RtosObject) (field : ObjectField) : RtosCode Word :=
  Code.act (.perform (.load object field))

def store (object : RtosObject) (field : ObjectField) (value : Word) : RtosCode Unit :=
  .step (.perform (.store object field value)) fun _ => pure ()

def release (object : RtosObject) : RtosCode Unit :=
  .step (.perform (.release object)) fun _ => pure ()

def ask (request : ObjectRequest) : RtosCode Word := Code.act (.perform (.ask request))

def osIsResourceValid (object : RtosObject) (marker : Word) : RtosCode OsStatus := do
  let found ← load object .marker
  return PicoToolkit.osIsResourceValid found marker

def releaseDynamic (object : RtosObject) : RtosCode Unit := do
  let attrBits ← load object .attrBits
  if attrBits &&& osDynamicAlloc ≠ 0 then release object else return ()

section Kernel

variable (context : Context)

def osKernelResourceAdd (id : OsResourceId) (object : RtosObject) : RtosCode OsStatus := do
  if osKernelContextIsValid false 0 context ≠ .osOK then
    return osKernelContextIsValid false 0 context
  spinLockIrqsave (.resource id)
  listAdd (.resource id) (.resource object)
  spinUnlockIrqrestore (.resource id)
  return .osOK

def osKernelResourceRemove (id : OsResourceId) (object : RtosObject) : RtosCode OsStatus := do
  if osKernelContextIsValid false 0 context ≠ .osOK then
    return osKernelContextIsValid false 0 context
  spinLockIrqsave (.resource id)
  listRemove (.resource object)
  spinUnlockIrqrestore (.resource id)
  return .osOK

/-- The loop of `osKernelResourceForEach`, until the callback returns another status than `osOK`. -/
def forEachResource {Given : Type} (func : RtosObject → Given → RtosCode (Word × Given)) :
    List ObjectNode → Given → RtosCode (Word × Given)
  | [], given => return (OsStatus.osOK.code, given)
  | .resource object :: rest, given => do
      let (status, given) ← func object given
      if status ≠ OsStatus.osOK.code then return (status, given)
      forEachResource func rest given
  | .active _ :: rest, given => forEachResource func rest given

def osKernelResourceForEach {Given : Type} (id : OsResourceId)
    (func : RtosObject → Given → RtosCode (Word × Given)) (given : Given) :
    RtosCode (Word × Given) := do
  if osKernelContextIsValid false 0 context ≠ .osOK then
    return ((osKernelContextIsValid false 0 context).code, given)
  spinLockIrqsave (.resource id)
  let nodes ← listForEach (.resource id)
  let result ← forEachResource func nodes given
  spinUnlockIrqrestore (.resource id)
  return result

def osKernelResourceRegistered (object : RtosObject) (sought : RtosObject) :
    RtosCode (Word × RtosObject) :=
  return (if object = sought then 1 else OsStatus.osOK.code, sought)

def osKernelResourceIsRegistered (id : OsResourceId) (object : RtosObject) : RtosCode OsStatus := do
  let (status, _) ← osKernelResourceForEach context id osKernelResourceRegistered object
  return if 1 ≤ status.toInt then .osOK else .osErrorResource

/-- `TASK_TERMINATED`, `TASK_BLOCKED`, `TASK_SUSPENDED`, `TASK_READY`, `TASK_RUNNING` -/
def taskStates : List Word := [1, 2, 4, 5, 6]

/-- `osThreadGetState(thread_id) == osThreadError` -/
def osThreadGetStateIsError (thread : Word) : RtosCode Bool := do
  if osKernelContextIsValid false 0 context ≠ .osOK then return true
  let status ← osIsResourceValid (.thread thread) rtosThreadMarker
  if status ≠ .osOK then return true
  let attrBits ← load (.thread thread) .attrBits
  if attrBits &&& osReapThread ≠ 0 then return true
  let state ← ask (.schedulerGetState thread)
  return decide (state ∉ taskStates)

def osKernelDumpResource (object : RtosObject) (marker : Word) : RtosCode (Word × Word) := do
  let status ← osIsResourceValid object marker
  return (status.code, marker)

def dumpMarker : OsResourceId → Option Word
  | .osResourceThread => some rtosThreadMarker
  | .osResourceMutex => some rtosMutexMarker
  | .osResourceMemoryPool => some rtosMemoryPoolMarker
  | .osResourceSemaphore => some rtosSemaphoreMarker
  | .osResourceEventFlags => some rtosEventflagsMarker
  | .osResourceTimer => some rtosTimerMarker
  | .osResourceMessageQueue => some rtosMessageQueueMarker
  | .osResourceDeque => some rtosDequeMarker
  | .osResourceRobustMutex => none

def osKernelResourceDump (id : OsResourceId) : RtosCode Word := do
  let running ← ask .kernelRunning
  if running = 0 then return OsStatus.osErrorResource.code
  match dumpMarker id with
  | none => return OsStatus.osErrorParameter.code
  | some marker =>
      let (status, _) ← osKernelResourceForEach context id osKernelDumpResource marker
      return status

end Kernel

/-- The memory that the attributes provide: a control block, whether there is other memory for an object
that has some, and whether the sizes of both are large enough. -/
structure ObjectAttr (Id : Type) where
  attrBits : Word
  cbMem : Option Id
  dataMem : Bool
  fits : Bool
  deriving DecidableEq

def ObjectAttr.embedded {Id : Type} (id : Id) : ObjectAttr Id where
  attrBits := 0
  cbMem := some id
  dataMem := true
  fits := true

section Constructors

variable {Id : Type} (context : Context)

def controlBlock (attr : ObjectAttr Id) (own : Word → Id) : RtosCode (Option (Id × Bool)) :=
  match attr.cbMem with
  | some id => return if attr.fits then some (id, false) else none
  | none => do
      let address ← ask .allocate
      return if address = 0 then none else some (own address, true)

def controlBlocks (attr : ObjectAttr Id) (own : Word → Id) : RtosCode (Option (Id × Bool)) :=
  match attr.cbMem, attr.dataMem with
  | none, false => do
      let address ← ask .allocate
      return if address = 0 then none else some (own address, true)
  | some id, true => return if attr.fits then some (id, false) else none
  | _, _ => return none

/-- `attr->attr_bits | (new_object != attr->cb_mem ? osDynamicAlloc : 0)` -/
def ObjectAttr.bits (attr : ObjectAttr Id) (allocated : Bool) : Word :=
  attr.attrBits ||| if allocated then osDynamicAlloc else 0

/-- The constructors of objects that consist of one control block: the control block with its marker and the
attribute bits, what is prepared besides, and the list it goes into. -/
def construct {Place : Type} (attr : ObjectAttr Place) (own : Word → Place)
    (identify : Place → Word → Id) (object : Id → RtosObject) (marker : Word)
    (prepare : Id → RtosCode Unit) (id : Id → OsResourceId) : RtosCode (Option Id) := do
  if osKernelContextIsValid false 0 context ≠ .osOK then return none
  let some (place, allocated) ← controlBlock attr own | return none
  let new := identify place (attr.bits allocated)
  store (object new) .marker marker
  store (object new) .attrBits (attr.bits allocated)
  prepare new
  let status ← osKernelResourceAdd context (id new) (object new)
  if status ≠ .osOK then
    releaseDynamic (object new)
    return none
  return some new

/-- `(mutex->attr_bits & osMutexRobust) ? osResourceRobustMutex : osResourceMutex` -/
def MutexId.resourceId (mutex : MutexId) : OsResourceId :=
  if mutex.attrBits &&& osMutexRobust ≠ 0 then .osResourceRobustMutex else .osResourceMutex

def RtosObject.resourceId : RtosObject → OsResourceId
  | .thread _ => .osResourceThread
  | .mutex id => id.resourceId
  | .memoryPool _ => .osResourceMemoryPool
  | .semaphore _ => .osResourceSemaphore
  | .eventFlags _ => .osResourceEventFlags
  | .timer _ => .osResourceTimer
  | .messageQueue _ => .osResourceMessageQueue
  | .deque _ => .osResourceDeque

def osMutexNew (attr : ObjectAttr Word) : RtosCode (Option MutexId) :=
  construct context attr id MutexId.mk .mutex rtosMutexMarker (fun _ => return ()) MutexId.resourceId

def osSemaphoreNew (attr : ObjectAttr SemaphoreId) : RtosCode (Option SemaphoreId) :=
  construct context attr .own (fun place _ => place) .semaphore rtosSemaphoreMarker
    (fun _ => return ()) fun _ => .osResourceSemaphore

def osEventFlagsNew (attr : ObjectAttr EventFlagsId) : RtosCode (Option EventFlagsId) :=
  construct context attr .own (fun place _ => place) .eventFlags rtosEventflagsMarker
    (fun new => store (.eventFlags new) .waiters 0) fun _ => .osResourceEventFlags

def OsTimerType.code : OsTimerType → Word
  | .osTimerOnce => 0
  | .osTimerPeriodic => 1

def osTimerNew (func : Word) (type : OsTimerType) (attr : ObjectAttr Word) : RtosCode (Option Word) := do
  if func = 0 then return none
  construct context attr id (fun place _ => place) .timer rtosTimerMarker
    (fun new => store (.timer new) .type (OsTimerType.code type)) fun _ => .osResourceTimer

/-- The destructors, but for those of event flags and timers: the marker, the list, the parts of a composite
object, and the memory. -/
def destroy (object : RtosObject) (marker : Word) (id : OsResourceId) (parts : RtosCode OsStatus) :
    RtosCode OsStatus := do
  if osKernelContextIsValid false 0 context ≠ .osOK then
    return osKernelContextIsValid false 0 context
  let valid ← osIsResourceValid object marker
  if valid ≠ .osOK then return valid
  store object .marker 0
  let removed ← osKernelResourceRemove context id object
  if removed ≠ .osOK then return removed
  let deleted ← parts
  if deleted ≠ .osOK then return deleted
  releaseDynamic object
  return .osOK

def osMutexDelete (mutex : MutexId) : RtosCode OsStatus :=
  destroy context (.mutex mutex) rtosMutexMarker mutex.resourceId (return .osOK)

def osSemaphoreDelete (semaphore : SemaphoreId) : RtosCode OsStatus :=
  destroy context (.semaphore semaphore) rtosSemaphoreMarker .osResourceSemaphore (return .osOK)

def osEventFlagsDelete (eventflags : EventFlagsId) : RtosCode OsStatus := do
  if osKernelContextIsValid false 0 context ≠ .osOK then
    return osKernelContextIsValid false 0 context
  let valid ← osIsResourceValid (.eventFlags eventflags) rtosEventflagsMarker
  if valid ≠ .osOK then return valid
  let waiters ← load (.eventFlags eventflags) .waiters
  if 0 < waiters.toInt then return .osErrorResource
  let removed ← osKernelResourceRemove context .osResourceEventFlags (.eventFlags eventflags)
  if removed ≠ .osOK then return removed
  releaseDynamic (.eventFlags eventflags)
  return .osOK

def osMemoryPoolDelete (pool : PoolId) : RtosCode OsStatus :=
  destroy context (.memoryPool pool) rtosMemoryPoolMarker .osResourceMemoryPool
    (osSemaphoreDelete context (.poolSemaphore pool))

def osMessageQueueDelete (queue : Word) : RtosCode OsStatus :=
  destroy context (.messageQueue queue) rtosMessageQueueMarker .osResourceMessageQueue do
    let status ← osSemaphoreDelete context (.dataAvailable queue)
    if status ≠ .osOK then return status
    osMemoryPoolDelete context (.messagePool queue)

def osDequeDelete (deque : Word) : RtosCode OsStatus :=
  destroy context (.deque deque) rtosDequeMarker .osResourceDeque
    (osEventFlagsDelete context (.events deque))

/-- The attribute bits of an allocated composite object; those in static memory stay as they are. -/
def storeBits (object : RtosObject) (attrBits : Word) (allocated : Bool) : RtosCode Unit :=
  if allocated then store object .attrBits (attrBits ||| osDynamicAlloc) else return ()

def osMemoryPoolNew (blockSize : Word) (attr : ObjectAttr PoolId) : RtosCode (Option PoolId) := do
  if osKernelContextIsValid false 0 context ≠ .osOK then return none
  if blockSize ≠ (blockSize + 3) &&& ~~~3 then return none
  let some (pool, allocated) ← controlBlocks attr .own | return none
  storeBits (.memoryPool pool) attr.attrBits allocated
  store (.memoryPool pool) .marker rtosMemoryPoolMarker
  let some _ ← osSemaphoreNew context (.embedded (.poolSemaphore pool)) | do
    releaseDynamic (.memoryPool pool)
    return none
  let status ← osKernelResourceAdd context .osResourceMemoryPool (.memoryPool pool)
  if status ≠ .osOK then
    let _ ← osSemaphoreDelete context (.poolSemaphore pool)
    releaseDynamic (.memoryPool pool)
    return none
  return some pool

def osMessageQueueNew (msgSize : Word) (attr : ObjectAttr Word) : RtosCode (Option Word) := do
  if osKernelContextIsValid false 0 context ≠ .osOK then return none
  let msgSize := (msgSize + 3) &&& ~~~3
  let some (queue, allocated) ← controlBlocks attr id | return none
  storeBits (.messageQueue queue) attr.attrBits allocated
  store (.messageQueue queue) .marker rtosMessageQueueMarker
  let some _ ← osMemoryPoolNew context (rtosMessageSize + msgSize) (.embedded (.messagePool queue)) | do
    releaseDynamic (.messageQueue queue)
    return none
  let some _ ← osSemaphoreNew context (.embedded (.dataAvailable queue)) | do
    let _ ← osMemoryPoolDelete context (.messagePool queue)
    releaseDynamic (.messageQueue queue)
    return none
  let status ← osKernelResourceAdd context .osResourceMessageQueue (.messageQueue queue)
  if status ≠ .osOK then
    let _ ← osSemaphoreDelete context (.dataAvailable queue)
    let _ ← osMemoryPoolDelete context (.messagePool queue)
    releaseDynamic (.messageQueue queue)
    return none
  return some queue

def osDequeNew (elementSize : Word) (attr : ObjectAttr Word) : RtosCode (Option Word) := do
  if osKernelContextIsValid false 0 context ≠ .osOK then return none
  if modulo elementSize elementSize ≠ 0 then return none
  let some (deque, allocated) ← controlBlocks attr id | return none
  storeBits (.deque deque) attr.attrBits allocated
  store (.deque deque) .marker rtosDequeMarker
  let some _ ← osEventFlagsNew context (.embedded (.events deque)) | do
    releaseDynamic (.deque deque)
    return none
  let status ← osKernelResourceAdd context .osResourceDeque (.deque deque)
  if status ≠ .osOK then
    let _ ← osEventFlagsDelete context (.events deque)
    releaseDynamic (.deque deque)
    return none
  return some deque

def osPriorityISR : Int := 56

def osThreadNew (func : Word) (priority : Int) (attr : ObjectAttr Word) : RtosCode (Option Word) := do
  if func = 0 then return none
  if osKernelContextIsValid false 0 context ≠ .osOK then return none
  if priority < 0 ∨ osPriorityISR < priority then return none
  let some (thread, allocated) ← controlBlocks attr id | return none
  store (.thread thread) .attrBits (attr.bits allocated)
  store (.thread thread) .marker rtosThreadMarker
  let some _ ← osEventFlagsNew context (.embedded (.flags thread)) | do
    releaseDynamic (.thread thread)
    return none
  let some _ ← osEventFlagsNew context (.embedded (.joiner thread)) | do
    let _ ← osEventFlagsDelete context (.flags thread)
    releaseDynamic (.thread thread)
    return none
  let status ← osKernelResourceAdd context .osResourceThread (.thread thread)
  if status ≠ .osOK then
    let _ ← osEventFlagsDelete context (.joiner thread)
    let _ ← osEventFlagsDelete context (.flags thread)
    releaseDynamic (.thread thread)
    return none
  let created ← ask (.schedulerCreate thread)
  if created = 0 then
    let _ ← osKernelResourceRemove context .osResourceThread (.thread thread)
    let _ ← osEventFlagsDelete context (.joiner thread)
    let _ ← osEventFlagsDelete context (.flags thread)
    releaseDynamic (.thread thread)
    return none
  return some thread

end Constructors

end PicoToolkit.Objects
