import PicoToolkit.Cmsis.Objects

/-!
The calls that go through the lists of objects: loops over them, the end of threads, and timers with the tick
hook.
-/

namespace PicoToolkit.Objects

open Locking

structure MutexCapture where
  thread : Word
  size : Nat
  mutexes : List MutexId
  deriving DecidableEq

section Threads

variable (context : Context)

def osMutexGetOwner (mutex : MutexId) : RtosCode Word := do
  if osKernelContextIsValid false 0 context ≠ .osOK then return 0
  let valid ← osIsResourceValid (.mutex mutex) rtosMutexMarker
  if valid ≠ .osOK then return 0
  let value ← ask (.mutexValue mutex)
  if value = 0 then return 0
  ask (.mutexContext mutex)

def osCaptureOwnedRobustMutexes (object : RtosObject) (capture : MutexCapture) :
    RtosCode (Word × MutexCapture) := do
  if capture.size ≤ capture.mutexes.length then return (1, capture)
  match object with
  | .mutex mutex =>
      let owner ← osMutexGetOwner context mutex
      return (OsStatus.osOK.code,
        if owner = capture.thread then { capture with mutexes := capture.mutexes ++ [mutex] } else capture)
  | _ => return (OsStatus.osOK.code, capture)

/-- The loop that releases one captured mutex, at most as many times as given; a status other than `osOK`
ends it. -/
def releaseOwned (thread : Word) (mutex : MutexId) : Nat → RtosCode (Option Word)
  | 0 => return none
  | times + 1 => do
      let owner ← osMutexGetOwner context mutex
      if owner ≠ thread then return some OsStatus.osOK.code
      let status ← ask (.mutexRobustRelease mutex thread)
      if status ≠ OsStatus.osOK.code then return some status
      releaseOwned thread mutex times

def releaseCaptured (thread : Word) (times : Nat) : List MutexId → RtosCode (Option Word)
  | [] => return some OsStatus.osOK.code
  | mutex :: rest => do
      let some status ← releaseOwned context thread mutex times | return none
      if status ≠ OsStatus.osOK.code then return some status
      releaseCaptured thread times rest

/-- Nothing is returned where the program aborts, and where the loops need more rounds than given. -/
def osReleaseRobustMutex (thread : Word) (times : Nat) : Nat → RtosCode (Option Word)
  | 0 => return none
  | rounds + 1 => do
      let (status, capture) ← osKernelResourceForEach context .osResourceRobustMutex
        (osCaptureOwnedRobustMutexes context) ⟨thread, 5, []⟩
      if status ≠ OsStatus.osOK.code then return none
      let some status ← releaseCaptured context thread times capture.mutexes | return none
      if status ≠ OsStatus.osOK.code then return some status
      if capture.mutexes.length = capture.size then osReleaseRobustMutex thread times rounds
      else return some OsStatus.osOK.code

def osThreadGetId : RtosCode Word := do
  let current ← ask .currentThread
  let valid ← osIsResourceValid (.thread current) rtosThreadMarker
  return if valid ≠ .osOK then 0 else current

def osThreadJoin (times rounds : Nat) (thread : Word) : RtosCode (Option Word) := do
  if osKernelContextIsValid false 0 context ≠ .osOK then
    return some (osKernelContextIsValid false 0 context).code
  let registered ← osKernelResourceIsRegistered context .osResourceThread (.thread thread)
  if registered = .osErrorResource then return some OsStatus.osErrorParameter.code
  let valid ← osIsResourceValid (.thread thread) rtosThreadMarker
  if valid ≠ .osOK then return some valid.code
  let isError ← osThreadGetStateIsError context thread
  if isError then return some OsStatus.osErrorParameter.code
  let attrBits ← load (.thread thread) .attrBits
  if attrBits &&& osThreadJoinable = 0 then return some OsStatus.osErrorResource.code
  let self ← osThreadGetId
  if thread = self then return some OsStatus.osErrorResource.code
  let flags ← ask (.eventFlagsWait (.joiner thread))
  if flags &&& osFlagsError ≠ 0 then return some flags
  let removed ← osKernelResourceRemove context .osResourceThread (.thread thread)
  if removed ≠ .osOK then return some removed.code
  let some released ← osReleaseRobustMutex context thread times rounds | return none
  if released ≠ OsStatus.osOK.code then return some released
  let joiner ← osEventFlagsDelete context (.joiner thread)
  if joiner ≠ .osOK then return some joiner.code
  let flags ← osEventFlagsDelete context (.flags thread)
  if flags ≠ .osOK then return some flags.code
  store (.thread thread) .marker 0
  releaseDynamic (.thread thread)
  return some OsStatus.osOK.code

def osThreadReap (object : RtosObject) (given : Unit) : RtosCode (Word × Unit) := do
  let valid ← osIsResourceValid object rtosThreadMarker
  if valid ≠ .osOK then return (valid.code, given)
  let attrBits ← load object .attrBits
  if attrBits &&& osReapThread ≠ 0 then
    listRemove (.resource object)
    let _ ← ask (.addToReapList object)
    return (OsStatus.osOK.code, given)
  return (OsStatus.osOK.code, given)

/-- The end of one thread of the list of the reaper; false if the list is empty or the program aborts. -/
def reapThread (times rounds : Nat) : RtosCode Bool := do
  let thread ← ask .popFromReapList
  if thread = 0 then return false
  let some released ← osReleaseRobustMutex context thread times rounds | return false
  if released ≠ OsStatus.osOK.code then return false
  let joiner ← osEventFlagsDelete context (.joiner thread)
  if joiner ≠ .osOK then return false
  let flags ← osEventFlagsDelete context (.flags thread)
  if flags ≠ .osOK then return false
  store (.thread thread) .marker 0
  releaseDynamic (.thread thread)
  return true

def reapThreads (times rounds : Nat) : RtosCode Bool := do
  let (status, _) ← osKernelResourceForEach context .osResourceThread osThreadReap ()
  if status ≠ OsStatus.osOK.code then return false
  let isEmpty ← ask .reapListIsEmpty
  if isEmpty ≠ 0 then return false
  (reapThread context times rounds).repeatWhile rounds
  return true

def osThreadReaper (times rounds : Nat) : RtosCode Unit :=
  Code.repeatWhile (do
    let flags ← ask .threadFlagsWait
    if flags &&& osFlagsError ≠ 0 then return false
    if flags &&& rtosReaperClean ≠ 0 then
      (reapThreads context times rounds).repeatWhile rounds
      return flags &&& rtosReaperExit = 0
    return flags &&& rtosReaperExit = 0) rounds

def osCountThreads (object : RtosObject) (count : Nat) : RtosCode (Word × Nat) := do
  match object with
  | .thread thread =>
      let isError ← osThreadGetStateIsError context thread
      return (OsStatus.osOK.code, if isError then count else count + 1)
  | _ => return (OsStatus.osOK.code, count)

def osThreadGetCount : RtosCode Nat := do
  if osKernelContextIsValid false 0 context ≠ .osOK then return 0
  let (status, count) ← osKernelResourceForEach context .osResourceThread (osCountThreads context) 0
  return if status ≠ OsStatus.osOK.code then 0 else count

/-- `struct rtos2_thread_capture` -/
def osCaptureThreads (object : RtosObject) (capture : Nat × List Word) :
    RtosCode (Word × (Nat × List Word)) := do
  match object with
  | .thread thread =>
      if capture.1 ≤ capture.2.length then return (OsStatus.osOK.code, capture)
      let isError ← osThreadGetStateIsError context thread
      return (OsStatus.osOK.code, if isError then capture else (capture.1, capture.2 ++ [thread]))
  | _ => return (OsStatus.osOK.code, capture)

def osThreadEnumerate (arrayItems : Nat) : RtosCode (List Word) := do
  if osKernelContextIsValid false 0 context ≠ .osOK then return []
  let (_, capture) ← osKernelResourceForEach context .osResourceThread (osCaptureThreads context)
    (arrayItems, [])
  return capture.2

end Threads

section Timers

variable (context : Context)

def timerStatus (timer : Word) : RtosCode OsStatus := do
  if osKernelContextIsValid false 0 context ≠ .osOK then
    return osKernelContextIsValid false 0 context
  osIsResourceValid (.timer timer) rtosTimerMarker

/-- `osCallOnce(&timer_thread_init, osTimerThreadInit, 0)`: the first call creates the queue and the
thread. -/
def timerThreadInit : RtosCode Unit := do
  let first ← ask .callOnce
  if first = 0 then return ()
  let some _ ← osMessageQueueNew context 4 ⟨0, none, false, true⟩ | return ()
  let _ ← osThreadNew context 1 32 ⟨0, none, false, true⟩
  return ()

/-- The loop that finds the place of a timer in the list, and `list_insert_before`. -/
def insertTimer (timer target : Word) : List ObjectNode → RtosCode Unit
  | .active current :: rest => do
      let other ← load (.timer current) .target
      if target < other then listAdd .activeTimers (.active timer) else insertTimer timer target rest
  | .resource _ :: rest => insertTimer timer target rest
  | [] => listAdd .activeTimers (.active timer)

def osTimerStart (timer ticks : Word) : RtosCode OsStatus := do
  if ticks = 0 ∨ ticks = osWaitForever then return .osErrorParameter
  let status ← timerStatus context timer
  if status ≠ .osOK then return status
  timerThreadInit context
  let now ← ask .getTicks
  store (.timer timer) .ticks ticks
  store (.timer timer) .target (now + ticks)
  spinLockIrqsave .activeTimers
  let nodes ← listForEach .activeTimers
  insertTimer timer (now + ticks) nodes
  spinUnlockIrqrestore .activeTimers
  return .osOK

def osTimerStop (timer : Word) : RtosCode OsStatus := do
  let status ← timerStatus context timer
  if status ≠ .osOK then return status
  let linked ← listIsLinked (.active timer)
  if !linked then return .osErrorResource
  spinLockIrqsave .activeTimers
  listRemove (.active timer)
  spinUnlockIrqrestore .activeTimers
  return .osOK

def osTimerIsRunning (timer : Word) : RtosCode Bool := do
  let status ← timerStatus context timer
  if status ≠ .osOK then return false
  listIsLinked (.active timer)

def osTimerDelete (timer : Word) : RtosCode OsStatus := do
  let status ← timerStatus context timer
  if status ≠ .osOK then return status
  spinLockIrqsave .activeTimers
  let linked ← listIsLinked (.active timer)
  if linked then listRemove (.active timer)
  spinUnlockIrqrestore .activeTimers
  store (.timer timer) .marker 0
  let removed ← osKernelResourceRemove context .osResourceEventFlags (.timer timer)
  if removed ≠ .osOK then return removed
  releaseDynamic (.timer timer)
  return .osOK

def expireTimer (ticks : Word) : RtosCode Bool := do
  let first ← listForEach .activeTimers
  match first with
  | .active expired :: _ =>
      let target ← load (.timer expired) .target
      if ticks < target then return false
      listRemove (.active expired)
      let status ← ask (.messageQueuePut expired)
      if status ≠ OsStatus.osErrorResource.code ∧ status ≠ OsStatus.osOK.code then return false
      let type ← load (.timer expired) .type
      if status = OsStatus.osErrorResource.code ∨ type = OsTimerType.code .osTimerPeriodic then
        let period ← load (.timer expired) .ticks
        let target := ticks + if status = OsStatus.osErrorResource.code then 0 else period
        store (.timer expired) .target target
        let nodes ← listForEach .activeTimers
        insertTimer expired target nodes
        return status ≠ OsStatus.osErrorResource.code
      return true
  | _ => return false

/-- The tick hook of a core, which works on the first core alone; the loop makes as many passes as given at
most. -/
def schedulerTickHook (core : Nat) (ticks : Word) (passes : Nat) : RtosCode Unit :=
  if core ≠ 0 then return () else (expireTimer ticks).repeatWhile passes

end Timers

/-- A call, with its arguments and the number of rounds that its loops may need. -/
inductive ObjectCall where
  | osThreadNew (func : Word) (priority : Int) (attr : ObjectAttr Word)
  | osMutexNew (attr : ObjectAttr Word)
  | osSemaphoreNew (attr : ObjectAttr SemaphoreId)
  | osEventFlagsNew (attr : ObjectAttr EventFlagsId)
  | osTimerNew (func : Word) (type : OsTimerType) (attr : ObjectAttr Word)
  | osMemoryPoolNew (blockSize : Word) (attr : ObjectAttr PoolId)
  | osMessageQueueNew (msgSize : Word) (attr : ObjectAttr Word)
  | osDequeNew (elementSize : Word) (attr : ObjectAttr Word)
  | osThreadJoin (times rounds : Nat) (thread : Word)
  | osMutexDelete (mutex : MutexId)
  | osSemaphoreDelete (semaphore : SemaphoreId)
  | osEventFlagsDelete (eventflags : EventFlagsId)
  | osTimerDelete (timer : Word)
  | osMemoryPoolDelete (pool : PoolId)
  | osMessageQueueDelete (queue : Word)
  | osDequeDelete (deque : Word)
  | osThreadReaper (times rounds : Nat)
  | osThreadGetCount
  | osThreadEnumerate (arrayItems : Nat)
  | osKernelResourceDump (id : OsResourceId)
  | osTimerStart (timer ticks : Word)
  | osTimerStop (timer : Word)
  | osTimerIsRunning (timer : Word)
  | schedulerTickHook (ticks : Word) (passes : Nat)
  deriving DecidableEq

def forget {Result : Type} (code : RtosCode Result) : RtosCode Unit := do
  let _ ← code
  return ()

def ObjectCall.code (core : Nat) (context : Context) : ObjectCall → RtosCode Unit
  | .osThreadNew func priority attr => forget (Objects.osThreadNew context func priority attr)
  | .osMutexNew attr => forget (Objects.osMutexNew context attr)
  | .osSemaphoreNew attr => forget (Objects.osSemaphoreNew context attr)
  | .osEventFlagsNew attr => forget (Objects.osEventFlagsNew context attr)
  | .osTimerNew func type attr => forget (Objects.osTimerNew context func type attr)
  | .osMemoryPoolNew blockSize attr => forget (Objects.osMemoryPoolNew context blockSize attr)
  | .osMessageQueueNew msgSize attr => forget (Objects.osMessageQueueNew context msgSize attr)
  | .osDequeNew elementSize attr => forget (Objects.osDequeNew context elementSize attr)
  | .osThreadJoin times rounds thread => forget (Objects.osThreadJoin context times rounds thread)
  | .osMutexDelete mutex => forget (Objects.osMutexDelete context mutex)
  | .osSemaphoreDelete semaphore => forget (Objects.osSemaphoreDelete context semaphore)
  | .osEventFlagsDelete eventflags => forget (Objects.osEventFlagsDelete context eventflags)
  | .osTimerDelete timer => forget (Objects.osTimerDelete context timer)
  | .osMemoryPoolDelete pool => forget (Objects.osMemoryPoolDelete context pool)
  | .osMessageQueueDelete queue => forget (Objects.osMessageQueueDelete context queue)
  | .osDequeDelete deque => forget (Objects.osDequeDelete context deque)
  | .osThreadReaper times rounds => Objects.osThreadReaper context times rounds
  | .osThreadGetCount => forget (Objects.osThreadGetCount context)
  | .osThreadEnumerate arrayItems => forget (Objects.osThreadEnumerate context arrayItems)
  | .osKernelResourceDump id => forget (Objects.osKernelResourceDump context id)
  | .osTimerStart timer ticks => forget (Objects.osTimerStart context timer ticks)
  | .osTimerStop timer => forget (Objects.osTimerStop context timer)
  | .osTimerIsRunning timer => forget (Objects.osTimerIsRunning context timer)
  | .schedulerTickHook ticks passes => Objects.schedulerTickHook core ticks passes

/-- Calls of threads and handlers on several cores; the tick hook runs in the interrupt of its core. -/
def objectCalls (cores : Nat) :
    Calls (Fin cores) ListId ObjectNode ObjectEffect Word (Context × ObjectCall) where
  code core entry := entry.2.code core.val entry.1
  interrupt entry := match entry.2 with
    | .schedulerTickHook _ _ => true
    | _ => false

end PicoToolkit.Objects
