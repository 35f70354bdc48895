import PicoToolkit.Cmsis.Semaphore
import PicoToolkit.Library.Stack

/-!
Memory pools: a semaphore counts the blocks that may be taken, and the free blocks are threaded on a
list through their first words.  The critical sections under the spin lock of a pool are one step.
-/

namespace PicoToolkit

open Transition Interleaving

def rtosMemoryPoolMarker : Word := 0x42033024

/-- `struct rtos_memory_pool`, with the addresses of the value and the futex of its semaphore, as
`osMemoryPoolNew` leaves it: the block size has passed its check, and the blocks lie in a piece of
memory. -/
structure RtosMemoryPool where
  value : Word
  futex : Word
  poolData : Word
  blockSize : Word
  capacity : Word
  aligned : blockSize = (blockSize + 3) &&& ~~~3
  present : poolData ≠ 0
  fits : poolData.toNat + blockSize.toNat * capacity.toNat < 2 ^ 32

structure PoolData where
  freeList : Word
  memory : Word → Word

namespace RtosMemoryPool

def marker (_ : RtosMemoryPool) : Word := rtosMemoryPoolMarker

def semaphore (pool : RtosMemoryPool) : RtosSemaphore where
  maxCount := pool.capacity
  value := pool.value
  futex := pool.futex

def block (pool : RtosMemoryPool) (index : Nat) : Word :=
  pool.poolData + BitVec.ofNat 32 index * pool.blockSize

def blocks (pool : RtosMemoryPool) : List Word := (List.range pool.capacity.toNat).map pool.block

def Apart (pool : RtosMemoryPool) : Prop := pool.blockSize ≠ 0 ∨ pool.capacity.toNat ≤ 1

def inRange (pool : RtosMemoryPool) (block : Word) : Bool :=
  !(decide (block < pool.poolData) ||
    decide (block > pool.poolData + pool.blockSize * pool.capacity))

end RtosMemoryPool

namespace RtosMemoryPool

variable {pool : RtosMemoryPool} {index other : Nat} {block : Word}

theorem toNat_block (below : index < pool.capacity.toNat) :
    (pool.block index).toNat = pool.poolData.toNat + index * pool.blockSize.toNat := by
  have fits := pool.fits
  have small := pool.capacity.isLt
  have offset : index * pool.blockSize.toNat ≤ pool.blockSize.toNat * pool.capacity.toNat := by
    rw [Nat.mul_comm]
    exact Nat.mul_le_mul_left _ (Nat.le_of_lt below)
  rw [block, BitVec.toNat_add, BitVec.toNat_mul, BitVec.toNat_ofNat,
    Nat.mod_eq_of_lt (show index < 2 ^ 32 by omega),
    Nat.mod_eq_of_lt (show index * pool.blockSize.toNat < 2 ^ 32 by omega)]
  exact Nat.mod_eq_of_lt (by omega)

theorem mem_blocks : block ∈ pool.blocks ↔ ∃ index < pool.capacity.toNat, pool.block index = block := by
  simp [blocks]

@[simp]
theorem length_blocks : pool.blocks.length = pool.capacity.toNat := by simp [blocks]

theorem eq_of_within (apart : pool.Apart) {first second : Word} (isFirst : first ∈ pool.blocks)
    (isSecond : second ∈ pool.blocks) (above : first.toNat ≤ second.toNat)
    (below : second.toNat < first.toNat + pool.blockSize.toNat ∨ second.toNat = first.toNat) :
    first = second := by
  obtain ⟨index, bound, rfl⟩ := mem_blocks.mp isFirst
  obtain ⟨other, otherBound, rfl⟩ := mem_blocks.mp isSecond
  rw [toNat_block bound, toNat_block otherBound] at above below
  rcases apart with sized | single
  · have positive : 0 < pool.blockSize.toNat :=
      Nat.pos_of_ne_zero fun zero => sized (BitVec.eq_of_toNat_eq zero)
    have le : index ≤ other := by
      by_contra less
      have gap : (other + 1) * pool.blockSize.toNat ≤ index * pool.blockSize.toNat :=
        Nat.mul_le_mul_right _ (by omega)
      rw [Nat.add_mul] at gap
      omega
    have ge : other ≤ index := by
      by_contra less
      have gap : (index + 1) * pool.blockSize.toNat ≤ other * pool.blockSize.toNat :=
        Nat.mul_le_mul_right _ (by omega)
      rw [Nat.add_mul] at gap
      omega
    rw [Nat.le_antisymm le ge]
  · obtain rfl : index = other := by omega
    rfl

theorem nodup_blocks (apart : pool.Apart) : pool.blocks.Nodup := by
  refine (List.nodup_map_iff_inj_on List.nodup_range).mpr ?_
  intro index inside other otherInside same
  have bound := List.mem_range.mp inside
  have otherBound := List.mem_range.mp otherInside
  have places := congrArg BitVec.toNat same
  rw [toNat_block bound, toNat_block otherBound] at places
  rcases apart with sized | single
  · have positive : 0 < pool.blockSize.toNat :=
      Nat.pos_of_ne_zero fun zero => sized (BitVec.eq_of_toNat_eq zero)
    exact Nat.eq_of_mul_eq_mul_right positive (by omega)
  · omega

theorem ne_zero_of_mem (member : block ∈ pool.blocks) : block ≠ 0 := by
  obtain ⟨index, bound, rfl⟩ := mem_blocks.mp member
  intro zero
  have isZero := congrArg BitVec.toNat zero
  rw [toNat_block bound] at isZero
  exact pool.present (BitVec.eq_of_toNat_eq (by simp at isZero ⊢; omega))

theorem inRange_of_mem (member : block ∈ pool.blocks) : pool.inRange block := by
  obtain ⟨index, bound, rfl⟩ := mem_blocks.mp member
  have fits := pool.fits
  have offset : index * pool.blockSize.toNat ≤ pool.blockSize.toNat * pool.capacity.toNat := by
    rw [Nat.mul_comm]
    exact Nat.mul_le_mul_left _ (Nat.le_of_lt bound)
  have last : (pool.poolData + pool.blockSize * pool.capacity).toNat =
      pool.poolData.toNat + pool.blockSize.toNat * pool.capacity.toNat := by
    rw [BitVec.toNat_add, BitVec.toNat_mul,
      Nat.mod_eq_of_lt (show pool.blockSize.toNat * pool.capacity.toNat < 2 ^ 32 by omega)]
    exact Nat.mod_eq_of_lt fits
  simp only [inRange, Bool.not_eq_true', Bool.or_eq_false_iff, decide_eq_false_iff_not,
    BitVec.not_lt, GT.gt, BitVec.le_def, last, toNat_block bound]
  omega

end RtosMemoryPool

def PoolData.push (data : PoolData) (block : Word) : PoolData where
  freeList := block
  memory := Function.update data.memory block data.freeList

def PoolData.pop (data : PoolData) : PoolData :=
  { data with freeList := data.memory data.freeList }

/-- The free list that `osMemoryPoolNew` threads through the blocks, whatever is in them. -/
def RtosMemoryPool.initialData (pool : RtosMemoryPool) (contents : Word → Word) : PoolData :=
  pool.blocks.foldl PoolData.push ⟨0, contents⟩

def PoolData.listRemove (data : PoolData) (node : Word) : PoolData :=
  let memory := Function.update data.memory (data.memory node + 4) (data.memory (node + 4))
  let memory := Function.update memory (memory (node + 4)) (memory node)
  let memory := Function.update memory node node
  { data with memory := Function.update memory (node + 4) node }

inductive AllocPlace where
  | acquire (place : AcquirePlace)
  | pop
  deriving DecidableEq

inductive FreePlace where
  | push (context : Context)
  | release (place : ReleasePlace)
  | remove (status : OsStatus)
  deriving DecidableEq

/-- `osMemoryPoolAlloc` goes on when its acquire is over; it returns null for any error. -/
def AllocPlace.afterAcquire : AcquirePlace ⊕ OsStatus → AllocPlace ⊕ Word
  | .inl place => .inl (.acquire place)
  | .inr .osOK => .inl .pop
  | .inr _ => .inr 0

def osMemoryPoolAllocStart (pool : RtosMemoryPool) (timeout : Word) (context : Context) :
    AllocPlace ⊕ Word :=
  if osKernelContextIsValid true timeout context ≠ .osOK then .inr 0
  else if osIsResourceValid pool.marker rtosMemoryPoolMarker ≠ .osOK then .inr 0
  else AllocPlace.afterAcquire (osSemaphoreAcquireStart pool.semaphore timeout context)

def osMemoryPoolAlloc (pool : RtosMemoryPool) (timeout : Word) :
    AllocPlace → ThreadOp PoolData (AllocPlace ⊕ Word)
  | .acquire place => (osSemaphoreAcquire pool.semaphore timeout place).map AllocPlace.afterAcquire
  | .pop => .data fun data => (data.pop, .inr data.freeList)

/-- `osMemoryPoolFree` goes on when its release is over. -/
def FreePlace.afterRelease : ReleasePlace ⊕ OsStatus → FreePlace ⊕ OsStatus
  | .inl place => .inl (.release place)
  | .inr .osOK => .inr .osOK
  | .inr status => .inl (.remove status)

def osMemoryPoolFreeStart (pool : RtosMemoryPool) (block : Word) (context : Context) :
    FreePlace ⊕ OsStatus :=
  osChecked (osKernelContextIsValid true 0 context) <|
    osChecked (osIsResourceValid pool.marker rtosMemoryPoolMarker) <|
      if pool.inRange block then .inl (.push context) else .inr .osErrorParameter

def osMemoryPoolFree (pool : RtosMemoryPool) (block : Word) :
    FreePlace → ThreadOp PoolData (FreePlace ⊕ OsStatus)
  | .push context => .data fun data =>
      (data.push block, FreePlace.afterRelease (osSemaphoreReleaseStart pool.semaphore context))
  | .release place => (osSemaphoreRelease pool.semaphore place).map FreePlace.afterRelease
  | .remove status => .data fun data => (data.listRemove block, .inr status)

def osSemaphoreGetCount (semaphore : RtosSemaphore) (context : Context) (value : Word) : Word :=
  if osKernelContextIsValid true 0 context ≠ .osOK then (osKernelContextIsValid true 0 context).code
  else if osIsResourceValid semaphore.marker rtosSemaphoreMarker ≠ .osOK then 0
  else value

def osMemoryPoolGetCount (pool : RtosMemoryPool) (context : Context) (value : Word) : Word :=
  if osKernelContextIsValid true 0 context ≠ .osOK then 0
  else if osIsResourceValid pool.marker rtosMemoryPoolMarker ≠ .osOK then 0
  else pool.capacity - osSemaphoreGetCount pool.semaphore context value

inductive PoolCall where
  | osMemoryPoolAlloc (timeout : Word)
  | osMemoryPoolFree (block : Word)
  | store (address value : Word)

inductive PoolPlace where
  | alloc (timeout : Word) (place : AllocPlace ⊕ Word)
  | free (block : Word) (place : FreePlace ⊕ OsStatus)
  | store (address value : Word)
  | stored
  deriving DecidableEq

def poolProgram (pool : RtosMemoryPool) : ThreadProgram PoolData PoolPlace PoolCall where
  enter
    | (context, .osMemoryPoolAlloc timeout) =>
        .alloc timeout (osMemoryPoolAllocStart pool timeout context)
    | (context, .osMemoryPoolFree block) => .free block (osMemoryPoolFreeStart pool block context)
    | (_, .store address value) => .store address value
  op
    | .alloc timeout (.inl place) => some ((osMemoryPoolAlloc pool timeout place).map (.alloc timeout))
    | .free block (.inl place) => some ((osMemoryPoolFree pool block place).map (.free block))
    | .store address value => some <| .data fun data =>
        ({ data with memory := Function.update data.memory address value }, .stored)
    | _ => none

def RtosMemoryPool.cells (pool : RtosMemoryPool) (address : Word) : Bool :=
  decide (address ∈ [pool.value])

abbrev poolSystem (cores : Nat) [NeZero cores] (pool : RtosMemoryPool) (contents : Word → Word) :
    System (Machine cores PoolData PoolPlace) (Label cores PoolCall) :=
  machineSystem (poolProgram pool) pool.cells (fun _ => pool.capacity) (pool.initialData contents)

/-- What a call has done to the ownership of a block: an alloc that returned it, or a free of it. -/
def PoolPlace.gives (block : Word) : PoolPlace → Int
  | .alloc _ (.inr result) => if result = block then 1 else 0
  | .free freed _ => if freed = block then -1 else 0
  | _ => 0

/-- How often the block has been handed out and not been passed to `osMemoryPoolFree` since. -/
def allocated (block : Word) (places : List PoolPlace) : Int := total (PoolPlace.gives block) places

def KeepsToOwn (pool : RtosMemoryPool) (shared : Shared Word Word PoolData PoolPlace) :
    Move Result (Context × PoolCall) → Prop
  | .call (_, .osMemoryPoolFree block) => block ≠ 0 ∧ 0 < allocated block shared.places
  | .call _ => True
  | .act index _ =>
      match shared.places[index]? with
      | some (.store address _) => ∃ block ∈ pool.blocks, 0 < allocated block shared.places ∧
          block.toNat ≤ address.toNat ∧ address.toNat < block.toNat + pool.blockSize.toNat
      | _ => True

instance (pool : RtosMemoryPool) (shared : Shared Word Word PoolData PoolPlace)
    (move : Move Result (Context × PoolCall)) : Decidable (KeepsToOwn pool shared move) := by
  unfold KeepsToOwn
  split
  · exact inferInstance
  · exact inferInstance
  · split
    · exact List.decidableBEx _ _
    · exact inferInstance

end PicoToolkit
