import PicoToolkit.Cmsis.DequeCreation
import PicoToolkit.Cmsis.Objects
import PicoToolkit.Cmsis.PoolCreation
import PicoToolkit.Cmsis.ThreadStack
import PicoToolkit.Cmsis.WaitingCalls

/-!
What the constructors of the CMSIS-RTOS2 layer store into a control block that has held anything before:
each is a function of the old control block, and what it does not set stays.
-/

namespace PicoToolkit.Creation

open Objects Waiting StackLayout

structure CString where
  bytes : List (BitVec 8)
  nonzero : 0 ∉ bytes

def CString.empty : CString := ⟨[], List.not_mem_nil⟩

def CString.deque : CString := ⟨[100, 101, 113, 117, 101], by decide⟩

abbrev NameField := Fin 32 → BitVec 8

/-- `strncpy` stores zeros after the end of the string, and none if the string is too long. -/
def strncpy (field : NameField) (text : CString) (size : Nat) : NameField := fun index =>
  if index.val < size then text.bytes.getD index 0 else field index

/-- `name[RTOS_NAME_SIZE - 1] = 0` after a `strncpy` of as many bytes. -/
def setName (field : NameField) (text : CString) : NameField := fun index =>
  if index.val = 31 then 0 else strncpy field text 32 index

theorem setName_constant (field otherField : NameField) (text : CString) :
    setName field text = setName otherField text := by
  funext index
  unfold setName strncpy
  split
  · rfl
  · rw [if_pos index.isLt, if_pos index.isLt]

def readName (field : NameField) : List (BitVec 8) := (List.ofFn field).takeWhile fun byte => byte ≠ 0

structure LinkNode where
  next : Word
  prev : Word
  deriving DecidableEq, Inhabited

def initNode (address : Word) : LinkNode := ⟨address, address⟩

structure FutexBlock where
  value : Word
  waiters : LinkNode
  owned : LinkNode
  flags : Word
  marker : Word
  deriving DecidableEq, Inhabited

def schedulerFutexMarker : Word := 0x137bb731

def futexInit (futex value flags : Word) : FutexBlock :=
  ⟨value, initNode (futex + 4), initNode (futex + 12), flags, schedulerFutexMarker⟩

/-- Who creates, what the allocator answers, and the head and the last node of each list of objects. -/
structure Surroundings where
  context : Context
  allocated : Word
  lists : OsResourceId → Word × Word

/-- What `osKernelResourceAdd` stores into the node. -/
def Surroundings.node (around : Surroundings) (id : OsResourceId) : LinkNode :=
  ⟨(around.lists id).1, (around.lists id).2⟩

structure BlockAttr where
  name : Option CString := none
  attrBits : Word := 0
  cbMem : Word := 0
  cbSize : Word := 0

namespace BlockAttr

variable (attr : BlockAttr)

def block (size allocated : Word) : Option Word :=
  if attr.cbMem = 0 then if allocated = 0 then none else some allocated
  else if attr.cbSize < size then none
  else some attr.cbMem

/-- `attr->attr_bits | (new != attr->cb_mem ? osDynamicAlloc : 0)` -/
def bits (address : Word) : Word :=
  attr.attrBits ||| if address ≠ attr.cbMem then osDynamicAlloc else 0

def Supplies (size : Word) (around : Surroundings) : Prop :=
  around.context = .thread ∧ attr.cbMem ≠ 0 ∧ ¬attr.cbSize < size

instance (size : Word) (around : Surroundings) : Decidable (attr.Supplies size around) :=
  inferInstanceAs (Decidable (_ ∧ _))

end BlockAttr

/-- The frame of the constructors whose objects consist of a control block.  The allocator clears what it
allocates. -/
def createBlock {Block : Type} [Inhabited Block] (size : Word) (attr : BlockAttr)
    (around : Surroundings) (init : Word → Block → Block) (old : Block) : Option Block :=
  if osKernelContextIsValid false 0 around.context ≠ .osOK then none
  else (attr.block size around.allocated).map fun address =>
    init address (if attr.cbMem = 0 then default else old)

def Dynamic (attrBits : Word) : Prop := attrBits &&& osDynamicAlloc ≠ 0

instance (attrBits : Word) : Decidable (Dynamic attrBits) := inferInstanceAs (Decidable (_ ≠ _))

section Mutexes

structure MutexBlock where
  marker : Word
  name : NameField
  attrBits : Word
  futex : FutexBlock
  value : Word
  count : Word
  resourceNode : LinkNode
  deriving Inhabited

def MutexBlock.size : Word := 84

/-- What `osMutexNew` stores after its checks; nothing to `value`. -/
def mutexInit (attr : BlockAttr) (around : Surroundings) (address : Word) (old : MutexBlock) :
    MutexBlock :=
  { old with
    marker := rtosMutexMarker
    name := setName old.name (attr.name.getD CString.empty)
    attrBits := attr.bits address
    futex := futexInit (address + 40) (address + 68)
      (if attr.bits address &&& osMutexPrioInherit ≠ 0 then
        schedulerFutexPi ||| schedulerFutexOwnerTracking ||| schedulerFutexContentionTracking
      else schedulerFutexOwnerTracking ||| schedulerFutexContentionTracking)
    count := 0
    resourceNode := around.node
      (if attr.bits address &&& osMutexRobust ≠ 0 then .osResourceRobustMutex
      else .osResourceMutex) }

def osMutexNew (attr : BlockAttr) (around : Surroundings) : MutexBlock → Option MutexBlock :=
  createBlock MutexBlock.size attr around (mutexInit attr around)

/-- `osMutexAcquire` of a mutex with its marker, by a thread, with a time-out of zero. -/
def osMutexTryAcquire (task : Word) (mutex : MutexBlock) : OsStatus × MutexBlock :=
  if task = mutex.value &&& ~~~schedulerFutexContentionTracking then
    if mutex.attrBits &&& osMutexRecursive = 0 then (.osErrorParameter, mutex)
    else (.osOK, { mutex with count := mutex.count + 1 })
  else if mutex.value ≠ 0 then (.osErrorResource, mutex)
  else
    (.osOK, { mutex with
      value := task
      count := if mutex.attrBits &&& osMutexRecursive ≠ 0 then 1 else mutex.count })

end Mutexes

section Counters

structure SemaphoreBlock where
  marker : Word
  name : NameField
  attrBits : Word
  futex : FutexBlock
  maxCount : Word
  value : Word
  resourceNode : LinkNode
  deriving Inhabited

def SemaphoreBlock.size : Word := 84

/-- What `osSemaphoreNew` stores after its checks. -/
def semaphoreInit (maxCount initialCount : Word) (attr : BlockAttr) (resourceNode : LinkNode)
    (address : Word) (old : SemaphoreBlock) : SemaphoreBlock :=
  { old with
    marker := rtosSemaphoreMarker
    name := setName old.name (attr.name.getD CString.empty)
    attrBits := attr.bits address
    maxCount := maxCount
    value := initialCount
    futex := futexInit (address + 40) (address + 72) 0
    resourceNode := resourceNode }

def osSemaphoreNew (maxCount initialCount : Word) (attr : BlockAttr) (around : Surroundings) :
    SemaphoreBlock → Option SemaphoreBlock :=
  createBlock SemaphoreBlock.size attr around
    (semaphoreInit maxCount initialCount attr (around.node .osResourceSemaphore))

structure EventflagsBlock where
  marker : Word
  name : NameField
  attrBits : Word
  futex : FutexBlock
  waiters : Word
  flags : Word
  resourceNode : LinkNode
  deriving Inhabited

def EventflagsBlock.size : Word := 84

/-- What `osEventFlagsNew` stores after its checks. -/
def eventflagsInit (attr : BlockAttr) (resourceNode : LinkNode) (address : Word)
    (old : EventflagsBlock) : EventflagsBlock :=
  { old with
    marker := rtosEventflagsMarker
    name := setName old.name (attr.name.getD CString.empty)
    attrBits := attr.bits address
    flags := 0
    waiters := 0
    futex := futexInit (address + 40) (address + 72) 0
    resourceNode := resourceNode }

def osEventFlagsNew (attr : BlockAttr) (around : Surroundings) :
    EventflagsBlock → Option EventflagsBlock :=
  createBlock EventflagsBlock.size attr around
    (eventflagsInit attr (around.node .osResourceEventFlags))

end Counters

section Composites

/-- What `osMemoryPoolNew` and its like set from the attributes: a name, and bits for memory that they
allocate. -/
structure PartsAttr where
  name : Option CString := none
  attrBits : Word := 0

/-- A part of a control block has the name of the whole, no attributes, and is in memory of its own. -/
def partAttr (name : Option CString) (address size : Word) : BlockAttr := ⟨name, 0, address, size⟩

structure PoolBlock where
  marker : Word
  name : NameField
  attrBits : Word
  blockSize : Word
  capacity : Word
  poolData : Word
  poolSemaphore : SemaphoreBlock
  freeList : Word
  lock : Word
  resourceNode : LinkNode
  deriving Inhabited

def lastBlock (poolData blockSize blockCount : Word) : Word :=
  if blockCount = 0 then 0 else poolData + (blockCount - 1) * blockSize

/-- What `osMemoryPoolNew` stores into the control block after its checks; the attribute bits only if it has
allocated it. -/
def poolInit (blockCount blockSize : Word) (attr : PartsAttr) (allocates : Bool)
    (semaphoreNode resourceNode : LinkNode) (address poolData : Word) (old : PoolBlock) : PoolBlock :=
  { old with
    marker := rtosMemoryPoolMarker
    name := setName old.name (attr.name.getD CString.empty)
    attrBits := if allocates then attr.attrBits ||| osDynamicAlloc else old.attrBits
    poolData := poolData
    blockSize := blockSize
    capacity := blockCount
    lock := 0
    poolSemaphore := semaphoreInit blockCount blockCount
      (partAttr attr.name (address + 52) SemaphoreBlock.size) semaphoreNode (address + 52)
      old.poolSemaphore
    freeList := lastBlock poolData blockSize blockCount
    resourceNode := resourceNode }

def osMemoryPoolNew (blockCount blockSize : Word) (attr : PartsAttr) (given : MemoryPoolAttr)
    (around : Surroundings) (old : PoolBlock) : Option PoolBlock :=
  if osKernelContextIsValid false 0 around.context ≠ .osOK then none
  else if blockSize ≠ (blockSize + 3) &&& ~~~3 then none
  else
    (MemoryPool.room blockCount blockSize given fun _ => around.allocated).map
      fun (address, poolData) =>
        poolInit blockCount blockSize attr (decide (given.cbMem = 0))
          (around.node .osResourceSemaphore) (around.node .osResourceMemoryPool) address poolData
          (if given.cbMem = 0 then default else old)

structure QueueBlock where
  marker : Word
  name : NameField
  attrBits : Word
  msgSize : Word
  msgCount : Word
  dataAvailable : SemaphoreBlock
  messagePool : PoolBlock
  lock : Word
  messages : LinkNode
  resourceNode : LinkNode
  deriving Inhabited

/-- What `osMessageQueueNew` stores after its checks.  Its pool is in memory that the pool has not allocated;
the semaphore of the queue follows that of the pool in the list of all semaphores. -/
def queueInit (msgCount msgSize : Word) (attr : PartsAttr) (allocates : Bool) (around : Surroundings)
    (address poolData : Word) (old : QueueBlock) : QueueBlock :=
  let name := attr.name.getD CString.empty
  { old with
    marker := rtosMessageQueueMarker
    name := setName old.name name
    attrBits := if allocates then attr.attrBits ||| osDynamicAlloc else old.attrBits
    msgSize := msgSize
    msgCount := msgCount
    messages := initNode (address + 292)
    lock := 0
    messagePool := poolInit msgCount (rtosMessageSize + msgSize) ⟨some name, 0⟩ false
      (around.node .osResourceSemaphore) (around.node .osResourceMemoryPool) (address + 136) poolData
      old.messagePool
    dataAvailable := semaphoreInit msgCount 0 (partAttr (some name) (address + 48) SemaphoreBlock.size)
      ⟨(around.lists .osResourceSemaphore).1, address + 136 + 52 + 76⟩ (address + 48)
      old.dataAvailable
    resourceNode := around.node .osResourceMessageQueue }

def osMessageQueueNew (msgCount msgSize : Word) (attr : PartsAttr) (given : MessageQueueAttr)
    (around : Surroundings) (old : QueueBlock) : Option QueueBlock :=
  if osKernelContextIsValid false 0 around.context ≠ .osOK then none
  else
    let msgSize := (msgSize + 3) &&& ~~~3
    (ByteQueue.room msgCount msgSize given fun _ => around.allocated).map
      fun (address, poolData, _) =>
        queueInit msgCount msgSize attr (decide (given.cbMem = 0)) around address poolData
          (if given.cbMem = 0 then default else old)

structure DequeBlock where
  marker : Word
  name : NameField
  attrBits : Word
  elementSize : Word
  elementCount : Word
  events : EventflagsBlock
  front : Word
  back : Word
  buffer : Word
  waiters : Word
  lock : Word
  resourceNode : LinkNode
  deriving Inhabited

/-- What `osDequeNew` stores after its checks; nothing to `waiters`. -/
def dequeInit (elementCount elementSize : Word) (attr : PartsAttr) (allocates : Bool)
    (around : Surroundings) (address buffer : Word) (old : DequeBlock) : DequeBlock :=
  { old with
    marker := rtosDequeMarker
    name := setName old.name (attr.name.getD CString.deque)
    attrBits := if allocates then attr.attrBits ||| osDynamicAlloc else old.attrBits
    elementSize := elementSize
    elementCount := elementCount
    front := 0
    back := 0
    buffer := buffer
    lock := 0
    events := eventflagsInit (partAttr attr.name (address + 48) EventflagsBlock.size)
      (around.node .osResourceEventFlags) (address + 48) old.events
    resourceNode := around.node .osResourceDeque }

def osDequeNew (elementCount elementSize : Word) (attr : PartsAttr) (given : DequeAttr)
    (around : Surroundings) (old : DequeBlock) : Option DequeBlock :=
  (CreatedDeque.osDequeNew elementCount elementSize given (fun _ => around.allocated)
    around.context).map fun made =>
      dequeInit elementCount elementSize attr (decide (given.cbMem = 0)) around made.control
        made.buffer (if given.cbMem = 0 then default else old)

end Composites

section Threads

structure ThreadBlock where
  marker : Word
  name : NameField
  attrBits : Word
  func : Word
  context : Word
  stack : Word
  stackSize : Word
  joiner : EventflagsBlock
  flags : EventflagsBlock
  resourceNode : LinkNode
  deriving Inhabited

structure ThreadMemory where
  block : ThreadBlock
  stack : Memory.Bytes

structure ThreadRequest where
  func : Word
  argument : Word
  name : Option CString
  attrBits : Word
  given : ThreadAttr
  priority : Int

def osThreadCreateSuspended : Word := 0x20000000
def osPriorityNormal : Int := 24

/-- `osSchedulerPriority` -/
def osSchedulerPriority (priority : Int) : Word := BitVec.ofInt 32 (osPriorityISR - priority)

/-- What `osThreadNew` stores into the control block. -/
def threadInit (request : ThreadRequest) (around : Surroundings) (address stack : Word)
    (old : ThreadBlock) : ThreadBlock :=
  { old with
    stack := stack
    stackSize := if request.given.cbMem = 0 then BitVec.ofNat 32 request.given.requested
      else request.given.stackSize
    attrBits := if request.given.cbMem = 0 then request.attrBits ||| osDynamicAlloc
      else request.attrBits
    -- one byte less than the size of the field, and no zero after it
    name := strncpy old.name (request.name.getD CString.empty) 31
    marker := rtosThreadMarker
    func := request.func
    context := request.argument
    flags := eventflagsInit (partAttr request.name (address + 140) EventflagsBlock.size)
      (around.node .osResourceEventFlags) (address + 140) old.flags
    joiner := eventflagsInit (partAttr request.name (address + 56) EventflagsBlock.size)
      ⟨(around.lists .osResourceEventFlags).1, address + 140 + 76⟩ (address + 56) old.joiner
    resourceNode := around.node .osResourceThread }

/-- The stack of a new thread, into which `scheduler_create` stores. -/
def threadStack (tls : TlsLayout) (request : ThreadRequest) (entryPoint exitHandler address : Word)
    (stack size : Nat) (old : Memory.Bytes) : Memory.Bytes := fun byte =>
  if stack ≤ byte ∧ byte < stack + size then
    old.run (createStores tls stack size
      (osThreadDescriptor entryPoint exitHandler address
        (osSchedulerPriority (if request.priority = 0 then osPriorityNormal else request.priority)) 0
        (decide (request.attrBits &&& osThreadCreateSuspended ≠ 0)))) byte
  else 0

/-- The functions that the scheduler calls for a thread, and the layout of the thread-local data. -/
structure ThreadImage where
  tls : TlsLayout
  entryPoint : Word
  exitHandler : Word

def osThreadNew (image : ThreadImage) (request : ThreadRequest) (around : Surroundings)
    (old : ThreadMemory) : Option ThreadMemory :=
  if request.func = 0 then none
  else if osKernelContextIsValid false 0 around.context ≠ .osOK then none
  else if request.priority < 0 ∨ osPriorityISR < request.priority then none
  else if request.given.cbMem = 0 ∧ around.allocated = 0 then none
  else
    (osThreadNewStackSize image.tls request.given).map fun size =>
      let dynamic := request.given.cbMem = 0
      let address := if dynamic then around.allocated else request.given.cbMem
      let stack := if dynamic then around.allocated + BitVec.ofNat 32 sizeofRtosThread
        else request.given.stackMem
      ⟨threadInit request around address stack (if dynamic then default else old.block),
        threadStack image.tls request image.entryPoint image.exitHandler address stack.toNat size
          (if dynamic then fun _ => 0 else old.stack)⟩

end Threads

end PicoToolkit.Creation
