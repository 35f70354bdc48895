import Mathlib.Data.List.Sort
import PicoToolkit.Cmsis.Pool
import PicoToolkit.Library.Memory

/-!
Message queues: a memory pool for the messages, a list of them by priority under a spin lock, and a
semaphore that counts the messages that may be taken.
-/

namespace PicoToolkit

open Memory Transition Interleaving

def rtosMessageQueueMarker : Word := 0x42077024

def rtosMessageSize : Word := 16

theorem message_aligned (word : Word) :
    rtosMessageSize + (word &&& ~~~3) = (rtosMessageSize + (word &&& ~~~3) + 3) &&& ~~~3 := by
  have bound := word.isLt
  have sum : (rtosMessageSize + (word &&& ~~~3)).toNat = (16 + word.toNat / 4 * 4) % 2 ^ 32 := by
    rw [BitVec.toNat_add, toNat_and_not_three]
    rfl
  have three : (3 : Word).toNat = 3 := rfl
  apply BitVec.eq_of_toNat_eq
  rw [toNat_and_not_three, sum, BitVec.toNat_add, sum, three]
  omega

/-- `struct rtos_message_queue`, with the addresses of the value and the futex of its semaphore, as
`osMessageQueueNew` leaves it: each block of the pool has room for a message, and no size wraps
around. -/
structure RtosMessageQueue where
  value : Word
  futex : Word
  pool : RtosMemoryPool
  msgSize : Word
  sized : pool.blockSize = rtosMessageSize + msgSize
  unwrapped : rtosMessageSize.toNat + msgSize.toNat < 2 ^ 32
  distinct : value ≠ pool.value

structure Message (Content : Type) where
  priority : BitVec 8
  content : Content
  deriving DecidableEq

/-- The data of the queue: the pool, whose words hold the priority of a message at its begin, the
bytes of the messages, and the list of messages.  The last two fields are history: the number of
insertions, and which of them put a block into the list. -/
structure QueueData (Content : Type) where
  pool : PoolData
  content : Word → Content
  messages : List Word
  insertions : Nat
  insertion : Word → Nat

/-- Where a call is.  A call of Get has the message that was in the block which it has removed, and a
call of Reset those that it has discarded; both are history. -/
inductive QueuePlace (Content : Type) where
  | putAlloc (message : Message Content) (timeout : Word) (context : Context) (place : AllocPlace)
  | putLoad (message : Message Content) (context : Context) (block : Word)
  | putInsert (message : Message Content) (context : Context) (block : Word)
  | putRelease (message : Message Content) (context : Context) (block : Word) (place : ReleasePlace)
  | putRemove (message : Message Content) (context : Context) (block : Word) (status : OsStatus)
  | putFree (message : Message Content) (block : Word) (status : OsStatus) (place : FreePlace)
  | putDone (message : Message Content) (status : OsStatus)
  | getAcquire (timeout : Word) (context : Context) (place : AcquirePlace)
  | getPop (context : Context)
  | getEmpty
  | getCopy (context : Context) (block : Word) (removed : Message Content)
  | getFree (message : Message Content) (block : Word) (place : FreePlace)
  | getDone (status : OsStatus) (message : Option (Message Content))
  | resetCount (discarded : List (Message Content))
  | resetAcquire (discarded : List (Message Content)) (place : AcquirePlace)
  | resetPop (discarded : List (Message Content))
  | resetEmpty (discarded : List (Message Content))
  | resetFree (discarded : List (Message Content)) (block : Word) (place : FreePlace)
  | resetDone (discarded : List (Message Content)) (status : OsStatus)
  deriving DecidableEq

namespace RtosMessageQueue

def marker (_ : RtosMessageQueue) : Word := rtosMessageQueueMarker

def dataAvailable (queue : RtosMessageQueue) : RtosSemaphore where
  maxCount := queue.pool.capacity
  value := queue.value
  futex := queue.futex

end RtosMessageQueue

variable {Content : Type}

namespace QueueData

def withPool (data : QueueData Content) (pool : PoolData) : QueueData Content :=
  { data with pool := pool }

def priority (data : QueueData Content) (block : Word) : Word := data.pool.memory block

def message (data : QueueData Content) (block : Word) : Message Content :=
  ⟨(data.priority block).setWidth 8, data.content block⟩

def load (data : QueueData Content) (block : Word) (message : Message Content) :
    QueueData Content :=
  { data with
    pool := { data.pool with
      memory := Function.update data.pool.memory block (message.priority.setWidth 32) }
    content := Function.update data.content block message.content }

def insert (data : QueueData Content) (block : Word) : QueueData Content :=
  { data with
    messages := data.messages.orderedInsert
      (fun message current => data.priority message > data.priority current) block
    insertions := data.insertions + 1
    insertion := Function.update data.insertion block data.insertions }

end QueueData

namespace QueuePlace

def afterAlloc (message : Message Content) (timeout : Word) (context : Context) :
    AllocPlace ⊕ Word → QueuePlace Content
  | .inl place => .putAlloc message timeout context place
  | .inr block =>
      if block = 0 then .putDone message (if timeout = 0 then .osErrorResource else .osErrorTimeout)
      else .putLoad message context block

def afterPutRelease (message : Message Content) (context : Context) (block : Word) :
    ReleasePlace ⊕ OsStatus → QueuePlace Content
  | .inl place => .putRelease message context block place
  | .inr .osOK => .putDone message .osOK
  | .inr status => .putRemove message context block status

def afterPutFree (message : Message Content) (block : Word) (status : OsStatus) :
    FreePlace ⊕ OsStatus → QueuePlace Content
  | .inl place => .putFree message block status place
  | .inr _ => .putDone message status

def afterGetAcquire (timeout : Word) (context : Context) :
    AcquirePlace ⊕ OsStatus → QueuePlace Content
  | .inl place => .getAcquire timeout context place
  | .inr .osOK => .getPop context
  | .inr _ => .getDone (if timeout = 0 then .osErrorResource else .osErrorTimeout) none

def afterGetFree (message : Message Content) (block : Word) :
    FreePlace ⊕ OsStatus → QueuePlace Content
  | .inl place => .getFree message block place
  | .inr status => .getDone status (some message)

def afterResetAcquire (discarded : List (Message Content)) :
    AcquirePlace ⊕ OsStatus → QueuePlace Content
  | .inl place => .resetAcquire discarded place
  | .inr .osOK => .resetPop discarded
  | .inr status => .resetDone discarded status

def afterResetFree (discarded : List (Message Content)) (block : Word) :
    FreePlace ⊕ OsStatus → QueuePlace Content
  | .inl place => .resetFree discarded block place
  | .inr .osOK => .resetCount discarded
  | .inr status => .resetDone discarded status

end QueuePlace

open QueuePlace

def osMessageQueuePutStart (queue : RtosMessageQueue) (message : Message Content) (timeout : Word)
    (context : Context) : QueuePlace Content :=
  if osKernelContextIsValid true timeout context ≠ .osOK then
    .putDone message (osKernelContextIsValid true timeout context)
  else if osIsResourceValid queue.marker rtosMessageQueueMarker ≠ .osOK then
    .putDone message .osErrorParameter
  else afterAlloc message timeout context (osMemoryPoolAllocStart queue.pool timeout context)

def osMessageQueueGetStart (queue : RtosMessageQueue) (timeout : Word) (context : Context) :
    QueuePlace Content :=
  if osKernelContextIsValid true timeout context ≠ .osOK then
    .getDone (osKernelContextIsValid true timeout context) none
  else if osIsResourceValid queue.marker rtosMessageQueueMarker ≠ .osOK then
    .getDone .osErrorParameter none
  else afterGetAcquire timeout context (osSemaphoreAcquireStart queue.dataAvailable timeout context)

def osMessageQueueResetStart (queue : RtosMessageQueue) (context : Context) : QueuePlace Content :=
  if osKernelContextIsValid false 0 context ≠ .osOK then
    .resetDone [] (osKernelContextIsValid false 0 context)
  else if osIsResourceValid queue.marker rtosMessageQueueMarker ≠ .osOK then
    .resetDone [] .osErrorParameter
  else .resetCount []

def ofPool {Place : Type} (op : ThreadOp PoolData Place) : ThreadOp (QueueData Content) Place :=
  op.within QueueData.pool QueueData.withPool

def queueOp (queue : RtosMessageQueue) :
    QueuePlace Content → Option (ThreadOp (QueueData Content) (QueuePlace Content))
  | .putAlloc message timeout context place => some <|
      (ofPool (osMemoryPoolAlloc queue.pool timeout place)).map (afterAlloc message timeout context)
  | .putLoad message context block => some <| .data fun data =>
      (data.load block message, .putInsert message context block)
  | .putInsert message context block => some <| .data fun data =>
      (data.insert block,
        afterPutRelease message context block (osSemaphoreReleaseStart queue.dataAvailable context))
  | .putRelease message context block place => some <|
      (osSemaphoreRelease queue.dataAvailable place).map (afterPutRelease message context block)
  | .putRemove message context block status => some <| .data fun data =>
      ({ data with messages := data.messages.erase block },
        afterPutFree message block status (osMemoryPoolFreeStart queue.pool block context))
  | .putFree message block status place => some <|
      (ofPool (osMemoryPoolFree queue.pool block place)).map (afterPutFree message block status)
  | .getAcquire timeout context place => some <|
      (osSemaphoreAcquire queue.dataAvailable timeout place).map (afterGetAcquire timeout context)
  | .getPop context => some <| .data fun data =>
      match data.messages with
      | [] => (data, .getEmpty)
      | block :: rest => ({ data with messages := rest }, .getCopy context block (data.message block))
  | .getEmpty => some <| .data fun data => (data, .getDone .osError none)
  | .getCopy context block _ => some <| .data fun data =>
      (data, afterGetFree (data.message block) block
        (osMemoryPoolFreeStart queue.pool block context))
  | .getFree message block place => some <|
      (ofPool (osMemoryPoolFree queue.pool block place)).map (afterGetFree message block)
  | .resetCount discarded => some <| .word queue.value fun value =>
      (value,
        if 0 < osSemaphoreGetCount queue.dataAvailable .thread value then
          afterResetAcquire discarded
            (osSemaphoreAcquireStart queue.dataAvailable osWaitForever .thread)
        else .resetDone discarded .osOK)
  | .resetAcquire discarded place => some <|
      (osSemaphoreAcquire queue.dataAvailable osWaitForever place).map (afterResetAcquire discarded)
  | .resetPop discarded => some <| .data fun data =>
      match data.messages with
      | [] => (data, .resetEmpty discarded)
      | block :: rest =>
          ({ data with messages := rest },
            afterResetFree (discarded ++ [data.message block]) block
              (osMemoryPoolFreeStart queue.pool block .thread))
  | .resetEmpty discarded => some <| .data fun data => (data, .resetDone discarded .osError)
  | .resetFree discarded block place => some <|
      (ofPool (osMemoryPoolFree queue.pool block place)).map (afterResetFree discarded block)
  | .putDone _ _ | .getDone _ _ | .resetDone _ _ => none

inductive QueueCall (Content : Type) where
  | osMessageQueuePut (message : Message Content) (timeout : Word)
  | osMessageQueueGet (timeout : Word)
  | osMessageQueueReset

/-- The calls of a queue, less those that return at once because they were given a null pointer. -/
def queueProgram (queue : RtosMessageQueue) :
    ThreadProgram (QueueData Content) (QueuePlace Content) (QueueCall Content) where
  enter
    | (context, .osMessageQueuePut message timeout) =>
        osMessageQueuePutStart queue message timeout context
    | (context, .osMessageQueueGet timeout) => osMessageQueueGetStart queue timeout context
    | (context, .osMessageQueueReset) => osMessageQueueResetStart queue context
  op := queueOp queue

def RtosMessageQueue.cells (queue : RtosMessageQueue) (address : Word) : Bool :=
  decide (address ∈ [queue.value, queue.pool.value])

def RtosMessageQueue.initialData (queue : RtosMessageQueue) (contents : Word → Word)
    (content : Word → Content) : QueueData Content where
  pool := queue.pool.initialData contents
  content := content
  messages := []
  insertions := 0
  insertion := fun _ => 0

/-- The semaphore of the pool begins with a token for each block, that of the messages with none. -/
def RtosMessageQueue.initialMemory (queue : RtosMessageQueue) (address : Word) : Word :=
  if address = queue.pool.value then queue.pool.capacity else 0

abbrev queueSystem (cores : Nat) [NeZero cores] (queue : RtosMessageQueue)
    (contents : Word → Word) (content : Word → Content) :
    System (Machine cores (QueueData Content) (QueuePlace Content))
      (Label cores (QueueCall Content)) :=
  machineSystem (queueProgram queue) queue.cells queue.initialMemory
    (queue.initialData contents content)

end PicoToolkit
