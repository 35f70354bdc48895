import PicoToolkit.Cmsis.MessageQueue
import PicoToolkit.Support.LinkedList

/-!
Message queues by bytes: the memory that `osMessageQueueNew` takes for a queue, and what the calls of
one thread after another read and write there and in the buffers of their callers.
-/

namespace PicoToolkit

open Memory Transition

/-- The memory that `osMessageQueueAttr_t` provides for the control block and for the messages. -/
structure MessageQueueAttr where
  cbMem : Word
  cbSize : Word
  mqMem : Word
  mqSize : Word

structure ByteQueue where
  control : Word
  poolData : Word
  msgSize : Word
  msgCount : Word
  deriving DecidableEq

/-- The bytes of memory, the head of the free list of the pool, and the values of the two
semaphores. -/
structure ByteStore where
  memory : Bytes
  freeList : Word
  poolValue : Word
  dataValue : Word

structure Returned where
  status : OsStatus
  buffer : Bytes
  priority : Option (BitVec 8)

namespace ByteQueue

/-- `sizeof(struct rtos_message_queue)` -/
def size : Word := 312

def messages (queue : ByteQueue) : Nat := (queue.control + 292).toNat

def blockSize (queue : ByteQueue) : Word := rtosMessageSize + queue.msgSize

def nodeOffset : Nat := 4

def dataOffset : Nat := 16

def threadBlocks (poolData blockSize : Word) (memory : Bytes) : Nat → Bytes × Word
  | 0 => (memory, 0)
  | index + 1 =>
      let (memory, freeList) := threadBlocks poolData blockSize memory index
      let block := poolData + BitVec.ofNat 32 index * blockSize
      (store memory block.toNat freeList, block)

def osMemoryPoolNew (memory : Bytes) (blockCount blockSize mpMem mpSize : Word) (context : Context) :
    Option (Bytes × Word) :=
  if osKernelContextIsValid false 0 context ≠ .osOK then none
  else if blockSize ≠ (blockSize + 3) &&& ~~~3 then none
  else if mpMem = 0 then none
  else if mpSize < blockSize * blockCount then none
  else some (threadBlocks mpMem blockSize memory blockCount.toNat)

/-- The control block, the memory for the messages and its size: one piece from the allocator, or the
two pieces of the caller. -/
def room (msgCount msgSize : Word) (attr : MessageQueueAttr) (alloc : Word → Word) :
    Option (Word × Word × Word) :=
  let poolSize := (rtosMessageSize + msgSize) * msgCount
  if attr.cbMem = 0 ∧ attr.mqMem = 0 then
    let control := alloc (size + poolSize)
    if control = 0 then none else some (control, control + size, poolSize)
  else if attr.cbMem ≠ 0 ∧ attr.mqMem ≠ 0 then
    if attr.cbSize < size ∨ attr.mqSize < poolSize then none
    else some (attr.cbMem, attr.mqMem, attr.mqSize)
  else none

def osMessageQueueNew (memory : Bytes) (msgCount msgSize : Word) (attr : MessageQueueAttr)
    (alloc : Word → Word) (context : Context) : Option (ByteQueue × ByteStore) :=
  if osKernelContextIsValid false 0 context ≠ .osOK then none
  else
    let msgSize := (msgSize + 3) &&& ~~~3
    (room msgCount msgSize attr alloc).bind fun (control, poolData, poolSize) =>
      let queue : ByteQueue := ⟨control, poolData, msgSize, msgCount⟩
      let memory := listInit memory queue.messages
      (osMemoryPoolNew memory msgCount queue.blockSize poolData poolSize context).map
        fun (memory, freeList) => (queue, ⟨memory, freeList, msgCount, 0⟩)

def osSemaphoreAcquire (value timeout : Word) (context : Context) : Option (OsStatus × Word) :=
  if osKernelContextIsValid true timeout context ≠ .osOK then
    some (osKernelContextIsValid true timeout context, value)
  else if value ≠ 0 then some (.osOK, value - 1)
  else if timeout = 0 then some (.osErrorResource, value)
  else if timeout = osWaitForever then none
  else some (.osErrorTimeout, value)

def osSemaphoreRelease (maxCount value : Word) (context : Context) : OsStatus × Word :=
  if osKernelContextIsValid true 0 context ≠ .osOK then
    (osKernelContextIsValid true 0 context, value)
  else if maxCount ≤ value then (.osErrorResource, value)
  else (.osOK, value + 1)

def osMemoryPoolAlloc (state : ByteStore) (timeout : Word) (context : Context) :
    Option (Word × ByteStore) :=
  if osKernelContextIsValid true timeout context ≠ .osOK then some (0, state)
  else
    (osSemaphoreAcquire state.poolValue timeout context).map fun (status, value) =>
      if status ≠ .osOK then (0, { state with poolValue := value })
      else
        (state.freeList,
          { state with
            poolValue := value
            freeList := load state.memory state.freeList.toNat })

def osMemoryPoolFree (queue : ByteQueue) (state : ByteStore) (block : Word) (context : Context) :
    OsStatus × ByteStore :=
  if osKernelContextIsValid true 0 context ≠ .osOK then
    (osKernelContextIsValid true 0 context, state)
  else if block < queue.poolData ∨ block > queue.poolData + queue.blockSize * queue.msgCount then
    (.osErrorParameter, state)
  else
    let memory := store state.memory block.toNat state.freeList
    let (status, value) := osSemaphoreRelease queue.msgCount state.poolValue context
    if status ≠ .osOK then
      (status,
        { state with memory := listRemove memory block.toNat, freeList := block, poolValue := value })
    else (.osOK, { state with memory := memory, freeList := block, poolValue := value })

def insertionNode (memory : Bytes) (messages : Nat) (priority : Word) : Nat → Nat → Option Nat
  | 0, _ => none
  | fuel + 1, node =>
      if node = messages then some node
      else if priority > load memory (node - nodeOffset) then some node
      else insertionNode memory messages priority fuel (listNext memory node).toNat

def noToken (timeout : Word) : OsStatus := if timeout = 0 then .osErrorResource else .osErrorTimeout

def loadMessage (queue : ByteQueue) (memory : Bytes) (message : Word) (source : Bytes)
    (priority : BitVec 8) : Bytes :=
  let memory := listInit memory (message.toNat + nodeOffset)
  let memory := store memory message.toNat (priority.setWidth 32)
  memcpy memory (message.toNat + dataOffset) source 0 queue.msgSize.toNat

def osMessageQueuePut (queue : ByteQueue) (state : ByteStore) (source : Bytes)
    (priority : BitVec 8) (timeout : Word) (context : Context) : Option (OsStatus × ByteStore) :=
  if osKernelContextIsValid true timeout context ≠ .osOK then
    some (osKernelContextIsValid true timeout context, state)
  else
    (osMemoryPoolAlloc state timeout context).bind fun (message, state) =>
      if message = 0 then some (noToken timeout, state)
      else
        let memory := queue.loadMessage state.memory message source priority
        (insertionNode memory queue.messages (load memory message.toNat) (queue.msgCount.toNat + 1)
          (listNext memory queue.messages).toNat).map fun entry =>
            let memory := listInsertBefore memory entry (message.toNat + nodeOffset)
            let (status, value) := osSemaphoreRelease queue.msgCount state.dataValue context
            let state := { state with memory := memory, dataValue := value }
            if status ≠ .osOK then
              let memory := listRemove memory (message.toNat + nodeOffset)
              (status, (queue.osMemoryPoolFree { state with memory := memory } message context).2)
            else (status, state)

def osMessageQueueGet (queue : ByteQueue) (state : ByteStore) (destination : Bytes)
    (timeout : Word) (context : Context) : Option (Returned × ByteStore) :=
  if osKernelContextIsValid true timeout context ≠ .osOK then
    some (⟨osKernelContextIsValid true timeout context, destination, none⟩, state)
  else
    (osSemaphoreAcquire state.dataValue timeout context).map fun (status, value) =>
      let state := { state with dataValue := value }
      if status ≠ .osOK then (⟨noToken timeout, destination, none⟩, state)
      else
        match listPop state.memory queue.messages with
        | (none, memory) => (⟨.osError, destination, none⟩, { state with memory := memory })
        | (some node, memory) =>
            let message := node - nodeOffset
            let destination :=
              memcpy destination 0 memory (message + dataOffset) queue.msgSize.toNat
            let priority := (load memory message &&& 0xff).setWidth 8
            let (status, state) := queue.osMemoryPoolFree { state with memory := memory }
              (BitVec.ofNat 32 message) context
            (⟨status, destination, some priority⟩, state)

end ByteQueue

/-- The calls with the buffers of their callers, less those that return at once because they were
given a null pointer. -/
inductive BufferCall where
  | osMessageQueuePut (source : Bytes) (priority : BitVec 8) (timeout : Word)
  | osMessageQueueGet (destination : Bytes) (timeout : Word)

open ByteQueue in
def ByteQueue.call (queue : ByteQueue) (state : ByteStore) :
    Context × BufferCall → Option (Returned × ByteStore)
  | (context, .osMessageQueuePut source priority timeout) =>
      (queue.osMessageQueuePut state source priority timeout context).map fun (status, state) =>
        (⟨status, source, none⟩, state)
  | (context, .osMessageQueueGet destination timeout) =>
      queue.osMessageQueueGet state destination timeout context

end PicoToolkit
