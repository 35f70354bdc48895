import PicoToolkit.Cmsis.TimerCreation

/-!
Which creations depend on what their memory held before.
-/

namespace PicoToolkit.Creation

open Objects Waiting StackLayout Observation

inductive Returned where
  | code (word : Word)
  | text (bytes : List (BitVec 8))

structure Uses (Object : Type) where
  Use : Type
  perform : Use → Object → Option (Returned × Object)

structure MutexUses extends Uses MutexBlock where
  acquire : Word → Use
  acquires : ∀ task mutex, perform (acquire task) mutex =
    some (.code (osMutexTryAcquire task mutex).1.code, (osMutexTryAcquire task mutex).2)

section Places

variable {Place : Type}

theorem isSome_check {check : Prop} [Decidable check] {rest : Option Place} :
    (if check then none else rest).isSome ↔ ¬check ∧ rest.isSome := by
  split
  · next fails => exact iff_of_false nofun fun passes => passes.1 fails
  · next passes => exact (and_iff_right passes).symm

theorem isSome_given {cbMem mem : Word} {small : Prop} [Decidable small] {allocated : Option Place}
    {pieces : Place} (given : cbMem ≠ 0) :
    (if cbMem = 0 ∧ mem = 0 then allocated
      else if cbMem ≠ 0 ∧ mem ≠ 0 then if small then none else some pieces
      else none).isSome ↔ mem ≠ 0 ∧ ¬small := by
  rw [if_neg fun none_ => given none_.1]
  by_cases isMem : mem = 0
  · rw [if_neg fun both => both.2 isMem]
    exact iff_of_false nofun fun both => both.1 isMem
  · rw [if_pos ⟨given, isMem⟩, isSome_check]
    exact ⟨fun large => ⟨isMem, large.1⟩, fun large => ⟨large.2, rfl⟩⟩

theorem context_valid_iff {context : Context} :
    ¬osKernelContextIsValid false 0 context ≠ .osOK ↔ context = .thread := by
  cases context <;> decide

end Places

section Blocks

variable {Block : Type} [Inhabited Block] {size : Word} {attr : BlockAttr} {around : Surroundings}
  {init : Word → Block → Block} (uses : Uses Block)

def blockPlace (size : Word) (attr : BlockAttr) (around : Surroundings) : Option Word :=
  if osKernelContextIsValid false 0 around.context ≠ .osOK then none
  else attr.block size around.allocated

theorem createBlock_inPlace : InPlace (blockPlace size attr around) (attr.cbMem = 0) (fun _ => default)
    init (createBlock size attr around init) := by
  intro old
  rw [createBlock, blockPlace]
  split <;> rfl

theorem supplies_iff : attr.cbMem ≠ 0 ∧ (blockPlace size attr around).isSome ↔
    attr.Supplies size around := by
  rw [BlockAttr.Supplies, blockPlace, isSome_check, context_valid_iff, and_left_comm]
  apply and_congr_right
  intro _
  apply and_congr_right
  intro given
  rw [BlockAttr.block, if_neg given, isSome_check]
  exact and_iff_left rfl

theorem blockPlace_given {address : Word} (given : attr.cbMem ≠ 0)
    (isPlace : blockPlace size attr around = some address) : address = attr.cbMem := by
  rw [blockPlace, BlockAttr.block, if_neg given] at isPlace
  split at isPlace
  · cases isPlace
  · split at isPlace
    · cases isPlace
    · exact (Option.some_inj.mp isPlace).symm

theorem bits_self : attr.bits attr.cbMem = attr.attrBits := by
  simp [BlockAttr.bits]

/-- A constructor that sets all fields depends on nothing old; the object is released if its attributes
tell so. -/
theorem independent_block_iff {attrBits : Block → Word}
    (constant : ∀ address old another, init address old = init address another)
    (isBits : ∀ address old, attrBits (init address old) = attr.bits address) :
    Independent (createBlock size attr around init) uses.perform (attr.cbMem ≠ 0)
        (fun block => Dynamic (attrBits block)) ↔
      (attr.Supplies size around → ¬Dynamic attr.attrBits) := by
  rw [← supplies_iff]
  apply createBlock_inPlace.independent_iff (simulates_eq uses.perform)
  · exact fun _ address _ => constant address
  · intro given address isPlace old
    rw [isBits, blockPlace_given given isPlace, bits_self]

theorem independent_semaphore_iff (maxCount initialCount : Word) (uses : Uses SemaphoreBlock) :
    Independent (osSemaphoreNew maxCount initialCount attr around) uses.perform (attr.cbMem ≠ 0)
        (fun semaphore => Dynamic semaphore.attrBits) ↔
      (attr.Supplies SemaphoreBlock.size around → ¬Dynamic attr.attrBits) := by
  apply independent_block_iff
  · intro address old another
    simp only [semaphoreInit, setName_constant old.name another.name]
  · exact fun _ _ => rfl

theorem independent_eventflags_iff (uses : Uses EventflagsBlock) :
    Independent (osEventFlagsNew attr around) uses.perform (attr.cbMem ≠ 0)
        (fun eventflags => Dynamic eventflags.attrBits) ↔
      (attr.Supplies EventflagsBlock.size around → ¬Dynamic attr.attrBits) := by
  apply independent_block_iff
  · intro address old another
    simp only [eventflagsInit, setName_constant old.name another.name]
  · exact fun _ _ => rfl

theorem osMutexTryAcquire_fst (task : Word) (mutex : MutexBlock) :
    (osMutexTryAcquire task mutex).1 =
      if task = mutex.value &&& ~~~schedulerFutexContentionTracking then
        if mutex.attrBits &&& osMutexRecursive = 0 then .osErrorParameter else .osOK
      else if mutex.value ≠ 0 then .osErrorResource
      else .osOK := by
  simp only [osMutexTryAcquire, apply_ite Prod.fst]

def heldBy (value : Word) : MutexBlock := { (default : MutexBlock) with value := value }

theorem independent_mutex_iff (uses : MutexUses) :
    Independent (osMutexNew attr around) uses.perform (attr.cbMem ≠ 0)
        (fun mutex => Dynamic mutex.attrBits) ↔
      ¬attr.Supplies MutexBlock.size around := by
  constructor
  · intro independent supplies
    obtain ⟨given, isPlace⟩ := supplies_iff.mpr supplies
    obtain ⟨address, isPlace⟩ := Option.isSome_iff_exists.mp isPlace
    have made (old : MutexBlock) : osMutexNew attr around old = some (mutexInit attr around address old) :=
      createBlock_inPlace.made isPlace given old
    have free := osMutexTryAcquire_fst 8 (mutexInit attr around address (heldBy 0))
    have held := osMutexTryAcquire_fst 8 (mutexInit attr around address (heldBy 4))
    have value (old : Word) : (mutexInit attr around address (heldBy old)).value = old := rfl
    rw [value, if_neg (by simp), if_neg (by simp)] at free
    rw [value, if_neg (by decide), if_pos (by simp)] at held
    have same := independent.same _ _ _ _ (made (heldBy 0)) (made (heldBy 4)) [uses.acquire 8]
    simp only [answers, uses.acquires, free, held, List.cons.injEq, Returned.code.injEq,
      and_true] at same
    exact absurd same (by decide)
  · rw [← supplies_iff]
    exact createBlock_inPlace.independent

end Blocks

section Composites

theorem dynamic_osDynamicAlloc : Dynamic osDynamicAlloc := by decide

def PoolSupplied (blockCount blockSize : Word) (given : MemoryPoolAttr) (around : Surroundings) :
    Prop :=
  given.cbMem ≠ 0 ∧ around.context = .thread ∧ blockSize = (blockSize + 3) &&& ~~~3 ∧
    given.mpMem ≠ 0 ∧ ¬(given.cbSize < MemoryPool.size ∨ given.mpSize < blockSize * blockCount)

theorem independent_pool_iff (blockCount blockSize : Word) (attr : PartsAttr) (given : MemoryPoolAttr)
    (around : Surroundings) (uses : Uses PoolBlock) :
    Independent (osMemoryPoolNew blockCount blockSize attr given around) uses.perform
        (given.cbMem ≠ 0)
        (fun pool => Dynamic pool.attrBits ∨ Dynamic pool.poolSemaphore.attrBits) ↔
      ¬PoolSupplied blockCount blockSize given around := by
  have place : given.cbMem ≠ 0 ∧
      (if osKernelContextIsValid false 0 around.context ≠ .osOK then none
        else if blockSize ≠ (blockSize + 3) &&& ~~~3 then none
        else MemoryPool.room blockCount blockSize given fun _ => around.allocated).isSome ↔
      PoolSupplied blockCount blockSize given around := by
    rw [PoolSupplied]
    apply and_congr_right
    intro isGiven
    rw [isSome_check, isSome_check, context_valid_iff, MemoryPool.room, isSome_given isGiven,
      Decidable.not_not]
  rw [← place]
  apply InPlace.independent_iff_not
  · intro old
    rw [osMemoryPoolNew]
    split
    · rfl
    · split <;> rfl
  · rintro isGiven ⟨address, poolData⟩
    refine ⟨{ (default : PoolBlock) with attrBits := osDynamicAlloc }, .inl ?_⟩
    rw [poolInit, decide_eq_false isGiven]
    exact dynamic_osDynamicAlloc

def QueueSupplied (msgCount msgSize : Word) (given : MessageQueueAttr) (around : Surroundings) : Prop :=
  given.cbMem ≠ 0 ∧ around.context = .thread ∧ given.mqMem ≠ 0 ∧
    ¬(given.cbSize < ByteQueue.size ∨
      given.mqSize < (rtosMessageSize + ((msgSize + 3) &&& ~~~3)) * msgCount)

theorem independent_queue_iff (msgCount msgSize : Word) (attr : PartsAttr) (given : MessageQueueAttr)
    (around : Surroundings) (uses : Uses QueueBlock) :
    Independent (osMessageQueueNew msgCount msgSize attr given around) uses.perform
        (given.cbMem ≠ 0)
        (fun queue => Dynamic queue.attrBits ∨ Dynamic queue.dataAvailable.attrBits ∨
          Dynamic queue.messagePool.attrBits ∨ Dynamic queue.messagePool.poolSemaphore.attrBits) ↔
      ¬QueueSupplied msgCount msgSize given around := by
  have place : given.cbMem ≠ 0 ∧
      (if osKernelContextIsValid false 0 around.context ≠ .osOK then none
        else ByteQueue.room msgCount ((msgSize + 3) &&& ~~~3) given fun _ => around.allocated).isSome ↔
      QueueSupplied msgCount msgSize given around := by
    rw [QueueSupplied]
    apply and_congr_right
    intro isGiven
    rw [isSome_check, context_valid_iff, ByteQueue.room, isSome_given isGiven]
  rw [← place]
  apply InPlace.independent_iff_not
  · intro old
    rw [osMessageQueueNew]
    split <;> rfl
  · intro isGiven ⟨address, poolData, poolSize⟩
    refine ⟨{ (default : QueueBlock) with attrBits := osDynamicAlloc }, .inl ?_⟩
    rw [queueInit, decide_eq_false isGiven]
    exact dynamic_osDynamicAlloc

def DequeSupplied (elementCount elementSize : Word) (given : DequeAttr) (around : Surroundings) : Prop :=
  given.cbMem ≠ 0 ∧ around.context = .thread ∧ modulo elementSize elementSize = 0 ∧
    given.dqMem ≠ 0 ∧ ¬(given.cbSize < CreatedDeque.size ∨
      given.dqSize < CreatedDeque.sizeofRtosMessage + elementSize * elementCount)

theorem independent_deque_iff (elementCount elementSize : Word) (attr : PartsAttr) (given : DequeAttr)
    (around : Surroundings) (uses : Uses DequeBlock) :
    Independent (osDequeNew elementCount elementSize attr given around) uses.perform (given.cbMem ≠ 0)
        (fun deque => Dynamic deque.attrBits ∨ Dynamic deque.events.attrBits) ↔
      ¬DequeSupplied elementCount elementSize given around := by
  have place : given.cbMem ≠ 0 ∧ (CreatedDeque.osDequeNew elementCount elementSize given
      (fun _ => around.allocated) around.context).isSome ↔
      DequeSupplied elementCount elementSize given around := by
    rw [DequeSupplied]
    apply and_congr_right
    intro isGiven
    rw [CreatedDeque.osDequeNew, isSome_check, isSome_check, Option.isSome_map, context_valid_iff,
      CreatedDeque.room, isSome_given isGiven, Decidable.not_not]
  rw [← place]
  apply InPlace.independent_iff_not
  · exact fun old => rfl
  · intro isGiven made
    refine ⟨{ (default : DequeBlock) with attrBits := osDynamicAlloc }, .inl ?_⟩
    rw [dequeInit, decide_eq_false isGiven]
    exact dynamic_osDynamicAlloc

end Composites

section Threads

def SameString (thread other : ThreadMemory) : Prop :=
  readName thread.block.name = readName other.block.name ∧
    other = { thread with block := { thread.block with name := other.block.name } }

/-- Functions on threads.  Their name is read as a string, and if it has no end in its field also beyond. -/
structure ThreadUses extends Uses ThreadMemory where
  reads : Simulates perform SameString
  getName : Use
  beyond : ThreadMemory → List (BitVec 8)
  names : ∀ thread, perform getName thread = some (.text (readName thread.block.name ++
    if (readName thread.block.name).length < 32 then [] else beyond thread), thread)

/-- `osThreadGetName` called in a thread, and the string read from there on, with these bytes behind the
field.  Null, for an empty name, is no string. -/
def osThreadGetName (behind : List (BitVec 8)) : ThreadUses where
  Use := Unit
  perform _ thread := some (.text (readName thread.block.name ++
    if (readName thread.block.name).length < 32 then [] else behind), thread)
  reads := by
    rintro ⟨⟩ thread other ⟨same, changed⟩
    refine .inr ⟨_, thread, other, rfl, ?_, same, changed⟩
    rw [same]
  getName := ()
  beyond _ := behind
  names _ := rfl

variable {text : CString} (field : NameField)

theorem ofFn_strncpy : List.ofFn (strncpy field text 31) =
    (text.bytes ++ List.replicate 31 0).take 31 ++ [field 31] := by
  apply List.ext_getElem
  · simp
  · intro index lower _
    rw [List.length_ofFn] at lower
    rw [List.getElem_ofFn]
    by_cases inside : index < 31
    · rw [List.getElem_append_left (by simp; omega), List.getElem_take, strncpy, if_pos inside]
      rw [List.getD_eq_getElem?_getD, List.getElem_append]
      split
      · next within => rw [List.getElem?_eq_getElem within, Option.getD_some]
      · next outside =>
          rw [List.getElem?_eq_none (not_lt.mp outside), List.getElem_replicate, Option.getD_none]
    · obtain rfl : index = 31 := by omega
      simp [strncpy]

theorem CString.byte_ne_zero {byte : BitVec 8} (member : byte ∈ text.bytes) :
    decide (byte ≠ 0) = true := by
  rw [decide_eq_true_iff]
  rintro rfl
  exact text.nonzero member

theorem readName_short (short : text.bytes.length < 31) :
    readName (strncpy field text 31) = text.bytes := by
  obtain ⟨zeros, more⟩ : ∃ zeros, 31 - text.bytes.length = zeros + 1 :=
    ⟨31 - text.bytes.length - 1, by omega⟩
  rw [readName, ofFn_strncpy, List.take_append, List.take_of_length_le (by omega), List.take_replicate,
    Nat.min_eq_left (by omega), more, List.append_assoc,
    List.takeWhile_append_of_pos fun byte => CString.byte_ne_zero, List.replicate_succ]
  simp

theorem readName_long (long : 31 ≤ text.bytes.length) : readName (strncpy field text 31) =
    text.bytes.take 31 ++ [field 31].takeWhile fun byte => byte ≠ 0 := by
  rw [readName, ofFn_strncpy, List.take_append_of_le_length long,
    List.takeWhile_append_of_pos fun byte member => CString.byte_ne_zero (List.mem_of_mem_take member)]

theorem readName_long_zero (long : 31 ≤ text.bytes.length) (zero : field 31 = 0) :
    (readName (strncpy field text 31)).length = 31 := by
  rw [readName_long field long, zero, List.length_append, List.length_take_of_le long]
  rfl

theorem readName_long_nonzero (long : 31 ≤ text.bytes.length) (nonzero : field 31 ≠ 0) :
    (readName (strncpy field text 31)).length = 32 := by
  rw [readName_long field long, List.length_append, List.length_take_of_le long,
    List.takeWhile_cons_of_pos (by simpa using nonzero)]
  rfl

theorem threadStack_constant (tls : TlsLayout) (request : ThreadRequest)
    (entryPoint exitHandler address : Word) (stack size : Nat) (old another : Memory.Bytes) :
    threadStack tls request entryPoint exitHandler address stack size old =
      threadStack tls request entryPoint exitHandler address stack size another := by
  funext byte
  unfold threadStack
  split
  · next inside =>
      have below : stack + 4 * ((byte - stack) / 4) < stack + size := by omega
      apply Memory.Bytes.run_eq_of_covered
      refine .inr ⟨Memory.Store.word (stack + 4 * ((byte - stack) / 4)) schedulerStackMarker, ?_, ?_⟩
      · rw [createStores, (osThreadDescriptor_plain _ _ _ _ _ _).layoutStores_eq]
        exact List.mem_append_left _ (word_mem_fillStack _ below)
      · rw [Memory.Store.word_region]
        constructor
        · simp only
          omega
        · simp only
          omega
  · rfl

variable {image : ThreadImage} {request : ThreadRequest} {around : Surroundings}

/-- A thread gives a function, a priority in the range, a control block and a stack, enough of both. -/
def ThreadSupplied (image : ThreadImage) (request : ThreadRequest) (around : Surroundings) : Prop :=
  request.given.cbMem ≠ 0 ∧ request.func ≠ 0 ∧ around.context = .thread ∧
    ¬(request.priority < 0 ∨ osPriorityISR < request.priority) ∧ request.given.stackMem ≠ 0 ∧
    ¬(request.given.cbSize.toNat < sizeofRtosThread ∨
      request.given.stackSize.toNat < osThreadMinimumStackSize image.tls)

/-- The size of the stack, if the checks of `osThreadNew` pass. -/
def threadPlace (image : ThreadImage) (request : ThreadRequest) (around : Surroundings) : Option Nat :=
  if request.func = 0 then none
  else if osKernelContextIsValid false 0 around.context ≠ .osOK then none
  else if request.priority < 0 ∨ osPriorityISR < request.priority then none
  else if request.given.cbMem = 0 ∧ around.allocated = 0 then none
  else osThreadNewStackSize image.tls request.given

theorem threadSupplied_iff : request.given.cbMem ≠ 0 ∧ (threadPlace image request around).isSome ↔
    ThreadSupplied image request around := by
  rw [ThreadSupplied]
  apply and_congr_right
  intro given
  have present : ¬(request.given.cbMem = 0 ∧ around.allocated = 0) := fun none_ => given none_.1
  rw [threadPlace, isSome_check, isSome_check, isSome_check, isSome_check, context_valid_iff,
    and_iff_right present, osThreadNewStackSize, isSome_given given]

def threadMade (image : ThreadImage) (request : ThreadRequest) (around : Surroundings) (size : Nat)
    (old : ThreadMemory) : ThreadMemory :=
  let dynamic := request.given.cbMem = 0
  let address := if dynamic then around.allocated else request.given.cbMem
  let stack := if dynamic then around.allocated + BitVec.ofNat 32 sizeofRtosThread
    else request.given.stackMem
  ⟨threadInit request around address stack old.block,
    threadStack image.tls request image.entryPoint image.exitHandler address stack.toNat size old.stack⟩

theorem osThreadNew_inPlace : InPlace (threadPlace image request around) (request.given.cbMem = 0)
    (fun _ => ⟨default, fun _ => 0⟩) (threadMade image request around)
    (osThreadNew image request around) := by
  intro old
  rw [osThreadNew, threadPlace]
  split
  · rfl
  · split
    · rfl
    · split
      · rfl
      · split
        · rfl
        · congr 1
          funext size
          rw [threadMade, apply_ite ThreadMemory.block, apply_ite ThreadMemory.stack]

theorem name_threadMade (size : Nat) (old : ThreadMemory) :
    (threadMade image request around size old).block.name =
      strncpy old.block.name (request.name.getD CString.empty) 31 := rfl

theorem attrBits_threadMade (given : request.given.cbMem ≠ 0) (size : Nat) (old : ThreadMemory) :
    (threadMade image request around size old).block.attrBits = request.attrBits :=
  if_neg given

theorem sameString_threadMade (short : (request.name.getD CString.empty).bytes.length < 31)
    (size : Nat) (old another : ThreadMemory) :
    SameString (threadMade image request around size old)
      (threadMade image request around size another) := by
  constructor
  · rw [name_threadMade, name_threadMade, readName_short _ short, readName_short _ short]
  · simp only [threadMade, threadInit, eventflagsInit,
      threadStack_constant image.tls request image.entryPoint image.exitHandler _ _ size old.stack
        another.stack,
      setName_constant old.block.flags.name another.block.flags.name,
      setName_constant old.block.joiner.name another.block.joiner.name]

def ReleasesThread (thread : ThreadMemory) : Prop :=
  Dynamic thread.block.attrBits ∨ Dynamic thread.block.flags.attrBits ∨
    Dynamic thread.block.joiner.attrBits

theorem bits_partAttr (name : Option CString) (address size : Word) :
    (partAttr name address size).bits address = 0 := bits_self

theorem releasesThread_threadMade (given : request.given.cbMem ≠ 0) (size : Nat)
    (old : ThreadMemory) :
    ReleasesThread (threadMade image request around size old) ↔ Dynamic request.attrBits := by
  have clear : ¬Dynamic 0 := by decide
  rw [ReleasesThread, attrBits_threadMade given]
  simp only [threadMade, threadInit, eventflagsInit, bits_partAttr, clear, or_false]

def filledWith (byte : BitVec 8) : ThreadMemory :=
  ⟨{ (default : ThreadBlock) with name := fun _ => byte }, fun _ => 0⟩

/-- The thread is read as a string reads its name: if that is too long, on to what was in the memory. -/
theorem independent_thread_iff (uses : ThreadUses) :
    Independent (osThreadNew image request around) uses.perform (request.given.cbMem ≠ 0)
        ReleasesThread ↔
      (ThreadSupplied image request around →
        ¬Dynamic request.attrBits ∧ (request.name.getD CString.empty).bytes.length < 31) := by
  rw [← threadSupplied_iff]
  by_cases short : (request.name.getD CString.empty).bytes.length < 31
  · have : Nonempty ThreadMemory := ⟨filledWith 0⟩
    rw [and_iff_left short]
    apply osThreadNew_inPlace.independent_iff uses.reads
    · exact fun _ size _ => sameString_threadMade short size
    · exact fun given size _ => releasesThread_threadMade given size
  · constructor
    · rintro independent ⟨given, isPlace⟩
      obtain ⟨size, isPlace⟩ := Option.isSome_iff_exists.mp isPlace
      have made := osThreadNew_inPlace.made isPlace given
      have long : 31 ≤ (request.name.getD CString.empty).bytes.length := not_lt.mp short
      have same := independent.same _ _ _ _ (made (filledWith 0)) (made (filledWith 65)) [uses.getName]
      have ended : (readName
          (threadMade image request around size (filledWith 0)).block.name).length = 31 :=
        readName_long_zero _ long rfl
      have endless : (readName
          (threadMade image request around size (filledWith 65)).block.name).length = 32 :=
        readName_long_nonzero _ long (by simp [filledWith])
      simp only [answers, uses.names, ended, endless, List.cons.injEq, Returned.text.injEq,
        and_true] at same
      have lengths := congrArg List.length same
      rw [List.length_append, List.length_append, ended, endless] at lengths
      simp at lengths
      omega
    · exact fun right => osThreadNew_inPlace.independent fun supplied => short (right supplied).2

end Threads

section Timers

variable {state : TimerState} {type : OsTimerType} {func argument : Word} {attr : BlockAttr}
  {around : Surroundings}

/-- The memory of a new timer, if the checks of `osTimerNew` pass. -/
def timerPlace (func : Word) (attr : BlockAttr) (around : Surroundings) : Option Word :=
  if func = 0 then none else blockPlace sizeofRtosTimer attr around

theorem osTimerNew_inPlace : InPlace (timerPlace func attr around) (attr.cbMem = 0) cleared
    (timerInit state type func argument attr) (osTimerNew state type func argument attr around) := by
  intro old
  rw [osTimerNew, timerPlace, blockPlace]
  split
  · rfl
  · split <;> rfl

theorem timerSupplied_iff : attr.cbMem ≠ 0 ∧ (timerPlace func attr around).isSome ↔
    func ≠ 0 ∧ attr.Supplies sizeofRtosTimer around := by
  rw [← supplies_iff, timerPlace, isSome_check, and_left_comm]

/-- A timer may keep its old ticks and target, which nothing reads before a start has set them. -/
theorem independent_timer_iff (unlisted : Unlisted attr.cbMem state.activeTimers) :
    Independent (osTimerNew state type func argument attr around) performTimers (attr.cbMem ≠ 0)
        (fun timers => Dynamic (timers.state.timer attr.cbMem).attrBits) ↔
      (func ≠ 0 ∧ attr.Supplies sizeofRtosTimer around → ¬Dynamic attr.attrBits) := by
  have : Nonempty TimerMemory := ⟨cleared 0⟩
  have atGiven {address : Word} (given : attr.cbMem ≠ 0)
      (isPlace : timerPlace func attr around = some address) : address = attr.cbMem := by
    rw [timerPlace] at isPlace
    split at isPlace
    · cases isPlace
    · exact blockPlace_given given isPlace
  rw [← timerSupplied_iff]
  apply osTimerNew_inPlace.independent_iff (simulates_timers attr.cbMem)
  · intro given address isPlace old another
    rw [atGiven given isPlace]
    exact alike_timerInit unlisted old another
  · intro given address isPlace old
    rw [atGiven given isPlace]
    simp only [timerInit, Function.update_self, bits_self]

end Timers

/-- A constructor with its arguments, and the functions that are called on what it makes. -/
inductive Constructor where
  | thread (image : ThreadImage) (request : ThreadRequest) (uses : ThreadUses)
  | mutex (attr : BlockAttr) (uses : MutexUses)
  | semaphore (maxCount initialCount : Word) (attr : BlockAttr) (uses : Uses SemaphoreBlock)
  | eventFlags (attr : BlockAttr) (uses : Uses EventflagsBlock)
  | timer (state : TimerState) (type : OsTimerType) (func argument : Word) (attr : BlockAttr)
      (unlisted : Unlisted attr.cbMem state.activeTimers)
  | memoryPool (blockCount blockSize : Word) (attr : PartsAttr) (given : MemoryPoolAttr)
      (uses : Uses PoolBlock)
  | messageQueue (msgCount msgSize : Word) (attr : PartsAttr) (given : MessageQueueAttr)
      (uses : Uses QueueBlock)
  | deque (elementCount elementSize : Word) (attr : PartsAttr) (given : DequeAttr)
      (uses : Uses DequeBlock)

namespace Constructor

/-- Whatever was in the memory, the object behaves the same, and memory of the caller is not released. -/
def IsIndependent (around : Surroundings) : Constructor → Prop
  | thread image request uses =>
      Independent (osThreadNew image request around) uses.perform (request.given.cbMem ≠ 0)
        ReleasesThread
  | mutex attr uses =>
      Independent (osMutexNew attr around) uses.perform (attr.cbMem ≠ 0)
        fun mutex => Dynamic mutex.attrBits
  | semaphore maxCount initialCount attr uses =>
      Independent (osSemaphoreNew maxCount initialCount attr around) uses.perform (attr.cbMem ≠ 0)
        fun semaphore => Dynamic semaphore.attrBits
  | eventFlags attr uses =>
      Independent (osEventFlagsNew attr around) uses.perform (attr.cbMem ≠ 0)
        fun eventflags => Dynamic eventflags.attrBits
  | timer state type func argument attr _ =>
      Independent (osTimerNew state type func argument attr around) performTimers (attr.cbMem ≠ 0)
        fun timers => Dynamic (timers.state.timer attr.cbMem).attrBits
  | memoryPool blockCount blockSize attr given uses =>
      Independent (osMemoryPoolNew blockCount blockSize attr given around) uses.perform
        (given.cbMem ≠ 0)
        fun pool => Dynamic pool.attrBits ∨ Dynamic pool.poolSemaphore.attrBits
  | messageQueue msgCount msgSize attr given uses =>
      Independent (osMessageQueueNew msgCount msgSize attr given around) uses.perform
        (given.cbMem ≠ 0)
        fun queue => Dynamic queue.attrBits ∨ Dynamic queue.dataAvailable.attrBits ∨
          Dynamic queue.messagePool.attrBits ∨ Dynamic queue.messagePool.poolSemaphore.attrBits
  | deque elementCount elementSize attr given uses =>
      Independent (osDequeNew elementCount elementSize attr given around) uses.perform
        (given.cbMem ≠ 0)
        fun deque => Dynamic deque.attrBits ∨ Dynamic deque.events.attrBits

/-- Mutexes, pools, queues and deques are not in memory of the caller; in such memory, the attributes of the
others do not tell to release it, and the name of a thread is short enough. -/
def Allows (around : Surroundings) : Constructor → Prop
  | thread image request _ => ThreadSupplied image request around →
      ¬Dynamic request.attrBits ∧ (request.name.getD CString.empty).bytes.length < 31
  | mutex attr _ => ¬attr.Supplies MutexBlock.size around
  | semaphore _ _ attr _ => attr.Supplies SemaphoreBlock.size around → ¬Dynamic attr.attrBits
  | eventFlags attr _ => attr.Supplies EventflagsBlock.size around → ¬Dynamic attr.attrBits
  | timer _ _ func _ attr _ =>
      func ≠ 0 ∧ attr.Supplies sizeofRtosTimer around → ¬Dynamic attr.attrBits
  | memoryPool blockCount blockSize _ given _ => ¬PoolSupplied blockCount blockSize given around
  | messageQueue msgCount msgSize _ given _ => ¬QueueSupplied msgCount msgSize given around
  | deque elementCount elementSize _ given _ => ¬DequeSupplied elementCount elementSize given around

theorem isIndependent_iff (around : Surroundings) (constructor : Constructor) :
    constructor.IsIndependent around ↔ constructor.Allows around := by
  cases constructor with
  | thread image request uses => exact independent_thread_iff uses
  | mutex attr uses => exact independent_mutex_iff uses
  | semaphore maxCount initialCount attr uses =>
      exact independent_semaphore_iff maxCount initialCount uses
  | eventFlags attr uses => exact independent_eventflags_iff uses
  | timer state type func argument attr unlisted => exact independent_timer_iff unlisted
  | memoryPool blockCount blockSize attr given uses =>
      exact independent_pool_iff blockCount blockSize attr given around uses
  | messageQueue msgCount msgSize attr given uses =>
      exact independent_queue_iff msgCount msgSize attr given around uses
  | deque elementCount elementSize attr given uses =>
      exact independent_deque_iff elementCount elementSize attr given around uses

end Constructor

def alone : Surroundings := ⟨.thread, 0, fun _ => (0, 0)⟩

def attempts : MutexUses where
  Use := Word
  perform task mutex := some (.code (osMutexTryAcquire task mutex).1.code, (osMutexTryAcquire task mutex).2)
  acquire := id
  acquires _ _ := rfl

def plainImage : ThreadImage := ⟨⟨[], 0, 0, Nat.le_refl 0⟩, 0x10000101, 0x10000201⟩

/-- A thread in memory of the caller, whose name leaves the last byte of its field as it was. -/
def longName : ThreadRequest where
  func := 0x10000301
  argument := 0
  name := some ⟨List.replicate 31 65, by decide⟩
  attrBits := 0
  given := ⟨0x20000000, 0x20001000, 0x1000, 0x1000⟩
  priority := osPriorityNormal

theorem reused_memory_tells :
    (osMutexNew ⟨none, 0, 0x20000000, 84⟩ alone (heldBy 0)).map (fun mutex =>
        (osMutexTryAcquire 8 mutex).1) = some .osOK ∧
      (osMutexNew ⟨none, 0, 0x20000000, 84⟩ alone (heldBy 4)).map (fun mutex =>
        (osMutexTryAcquire 8 mutex).1) = some .osErrorResource ∧
      ¬(Constructor.mutex ⟨none, 0, 0x20000000, 84⟩ attempts).IsIndependent alone ∧
      ¬(Constructor.thread plainImage longName (osThreadGetName [])).IsIndependent alone ∧
      ((osMemoryPoolNew 1 4 ⟨none, 0⟩ ⟨0x20000000, 168, 0x20001000, 4⟩ alone
        { (default : PoolBlock) with attrBits := osDynamicAlloc }).map PoolBlock.attrBits) =
          some osDynamicAlloc := by
  refine ⟨by decide, by decide, fun independent => ?_, fun independent => ?_, by decide⟩
  · exact (independent_mutex_iff attempts).mp independent (by decide)
  · have supplied : ThreadSupplied plainImage longName alone :=
      ⟨by decide, by decide, rfl, by decide, by decide, by decide⟩
    have short := ((independent_thread_iff (osThreadGetName [])).mp independent supplied).2
    exact absurd short (by decide)

end PicoToolkit.Creation
