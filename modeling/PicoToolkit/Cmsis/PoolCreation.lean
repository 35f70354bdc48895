import PicoToolkit.Cmsis.MessageBytes

/-!
The creation of memory pools: the memory that `osMemoryPoolNew` asks for or checks, and the blocks that
it threads on the free list.
-/

namespace PicoToolkit

open Memory

/-- The memory that `osMemoryPoolAttr_t` provides for the control block and for the blocks. -/
structure MemoryPoolAttr where
  cbMem : Word
  cbSize : Word
  mpMem : Word
  mpSize : Word

/-- What `osMemoryPoolNew` puts into the control block; the semaphore has as many tokens as it may
have. -/
structure CreatedPool where
  control : Word
  poolData : Word
  blockSize : Word
  capacity : Word
  value : Word
  freeList : Word
  deriving DecidableEq

namespace MemoryPool

open ByteQueue (threadBlocks)

/-- `sizeof(struct rtos_memory_pool)`, where the `data` begins. -/
def size : Word := 152

def rtos2PoolAlloc (alloc : Word → Word) (poolSize : Word) : Word := alloc (size + poolSize)

/-- The control block and the memory for the blocks: one piece from the allocator, or the two pieces
of the caller. -/
def room (blockCount blockSize : Word) (attr : MemoryPoolAttr) (alloc : Word → Word) :
    Option (Word × Word) :=
  if attr.cbMem = 0 ∧ attr.mpMem = 0 then
    let control := rtos2PoolAlloc alloc (blockSize * blockCount)
    if control = 0 then none else some (control, control + size)
  else if attr.cbMem ≠ 0 ∧ attr.mpMem ≠ 0 then
    if attr.cbSize < size ∨ attr.mpSize < blockSize * blockCount then none
    else some (attr.cbMem, attr.mpMem)
  else none

def osMemoryPoolNew (memory : Bytes) (blockCount blockSize : Word) (attr : MemoryPoolAttr)
    (alloc : Word → Word) (context : Context) : Option (CreatedPool × Bytes) :=
  if osKernelContextIsValid false 0 context ≠ .osOK then none
  else if blockSize ≠ (blockSize + 3) &&& ~~~3 then none
  else
    (room blockCount blockSize attr alloc).map fun (control, poolData) =>
      let (memory, freeList) := threadBlocks poolData blockSize memory blockCount.toNat
      (⟨control, poolData, blockSize, blockCount, blockCount, freeList⟩, memory)

/-- How many bytes there are for the blocks: as many as the caller supplied, or what is left of the
allocated memory after the control block. -/
def dataArea (blockCount blockSize : Word) (attr : MemoryPoolAttr) : Nat :=
  if attr.mpMem = 0 then (size + blockSize * blockCount).toNat - size.toNat else attr.mpSize.toNat

/-- The free list consists of as many blocks as asked for, which do not overlap, have room for a link
and are inside the area; and nothing else of the memory has changed. -/
def Covers (pool : CreatedPool) (before after : Bytes) (blockCount blockSize : Word) (area : Nat) :
    Prop :=
  (∃ blocks : List Word,
    Stack.Threads (fun block => load after block.toNat) 0 pool.freeList blocks ∧
      blocks.length = blockCount.toNat ∧ blocks.Nodup ∧
      (blocks.Pairwise fun block other => block.toNat + blockSize.toNat ≤ other.toNat ∨
        other.toNat + blockSize.toNat ≤ block.toNat) ∧
      ∀ block ∈ blocks, 4 ≤ blockSize.toNat ∧ pool.poolData.toNat ≤ block.toNat ∧
        block.toNat + blockSize.toNat ≤ pool.poolData.toNat + area) ∧
  ∀ address, (address < pool.poolData.toNat ∨ pool.poolData.toNat + area ≤ address) →
    after address = before address

def Unwrapped (blockCount blockSize : Word) (attr : MemoryPoolAttr) : Prop :=
  if attr.mpMem = 0 then size.toNat + blockSize.toNat * blockCount.toNat < 2 ^ 32
  else blockSize.toNat * blockCount.toNat < 2 ^ 32

instance (blockCount blockSize : Word) (attr : MemoryPoolAttr) :
    Decidable (Unwrapped blockCount blockSize attr) := by
  unfold Unwrapped
  infer_instance

structure Provided (attr : MemoryPoolAttr) (alloc : Word → Word) : Prop where
  data : attr.mpMem ≠ 0 → attr.mpMem.toNat + attr.mpSize.toNat ≤ 2 ^ 32
  alloc : ∀ size, alloc size ≠ 0 → (alloc size).toNat + size.toNat ≤ 2 ^ 32

variable {memory : Bytes} {poolData blockCount blockSize : Word} {attr : MemoryPoolAttr}
  {alloc : Word → Word} {context : Context} {pool : CreatedPool} {after : Bytes}

def block (poolData blockSize : Word) (index : Nat) : Word :=
  poolData + BitVec.ofNat 32 index * blockSize

theorem toNat_block {count index : Nat} (wide : 0 < blockSize.toNat)
    (fits : poolData.toNat + blockSize.toNat * count ≤ 2 ^ 32) (below : index < count) :
    (block poolData blockSize index).toNat = poolData.toNat + index * blockSize.toNat := by
  have step : blockSize.toNat * index + blockSize.toNat ≤ blockSize.toNat * count := by
    rw [← Nat.mul_succ]
    exact Nat.mul_le_mul_left _ below
  have slow : index ≤ blockSize.toNat * index := Nat.le_mul_of_pos_left _ wide
  have swap : index * blockSize.toNat = blockSize.toNat * index := Nat.mul_comm _ _
  rw [block, BitVec.toNat_add, BitVec.toNat_mul, BitVec.toNat_ofNat,
    Nat.mod_eq_of_lt (show index < 2 ^ 32 by omega),
    Nat.mod_eq_of_lt (show index * blockSize.toNat < 2 ^ 32 by omega)]
  apply Nat.mod_eq_of_lt
  omega

theorem block_apart {count index other : Nat} (wide : 0 < blockSize.toNat)
    (fits : poolData.toNat + blockSize.toNat * count ≤ 2 ^ 32) (below : other < count)
    (less : index < other) :
    (block poolData blockSize index).toNat + blockSize.toNat ≤
      (block poolData blockSize other).toNat := by
  have step : (index + 1) * blockSize.toNat ≤ other * blockSize.toNat :=
    Nat.mul_le_mul_right _ less
  rw [Nat.add_mul] at step
  rw [toNat_block wide fits (by omega), toNat_block wide fits below]
  omega

theorem threadBlocks_threads {count total : Nat} (present : poolData ≠ 0)
    (wide : 4 ≤ blockSize.toNat) (fits : poolData.toNat + blockSize.toNat * total ≤ 2 ^ 32)
    (within : count ≤ total) :
    Stack.Threads
        (fun block => load (threadBlocks poolData blockSize memory count).1 block.toNat) 0
        (threadBlocks poolData blockSize memory count).2
        ((List.range count).reverse.map (block poolData blockSize)) ∧
      ∀ address, (∀ index < total, address < (block poolData blockSize index).toNat ∨
          (block poolData blockSize index).toNat + 4 ≤ address) →
        (threadBlocks poolData blockSize memory count).1 address = memory address := by
  induction count with
  | zero => exact ⟨rfl, fun _ _ => rfl⟩
  | succ count ih =>
      obtain ⟨threads, same⟩ := ih (by omega)
      have isBlock : poolData + BitVec.ofNat 32 count * blockSize = block poolData blockSize count :=
        rfl
      simp only [threadBlocks, isBlock]
      constructor
      · rw [List.range_succ, List.reverse_append, List.reverse_singleton, List.singleton_append,
          List.map_cons]
        refine ⟨rfl, ?_, ?_⟩
        · intro null
          have place := toNat_block (by omega) fits (show count < total by omega)
          have zero : (0 : Word).toNat = 0 := rfl
          rw [null, zero] at place
          apply present
          apply BitVec.eq_of_toNat_eq
          omega
        · simp only [load_store_self]
          refine threads.congr fun cell member => ?_
          obtain ⟨index, inside, rfl⟩ := List.mem_map.mp member
          have below := List.mem_range.mp (List.mem_reverse.mp inside)
          have apart := block_apart (by omega) fits (show count < total by omega) below
          exact load_store_of_apart (by omega)
      · intro address outside
        rw [store_of_apart (outside count (by omega))]
        exact same address outside

theorem covers_of_fits {area : Nat} (present : poolData ≠ 0) (wide : 4 ≤ blockSize.toNat)
    (fits : poolData.toNat + area ≤ 2 ^ 32) (enough : blockSize.toNat * blockCount.toNat ≤ area)
    (isData : pool.poolData = poolData)
    (isList : pool.freeList = (threadBlocks poolData blockSize memory blockCount.toNat).2) :
    Covers pool memory (threadBlocks poolData blockSize memory blockCount.toNat).1 blockCount
      blockSize area := by
  have within : poolData.toNat + blockSize.toNat * blockCount.toNat ≤ 2 ^ 32 := by omega
  obtain ⟨threads, same⟩ := @threadBlocks_threads memory _ _ _ _ present wide within
    (Nat.le_refl blockCount.toNat)
  have inside : ∀ index < blockCount.toNat,
      poolData.toNat ≤ (block poolData blockSize index).toNat ∧
        (block poolData blockSize index).toNat + blockSize.toNat ≤ poolData.toNat + area := by
    intro index below
    have step : (index + 1) * blockSize.toNat ≤ blockCount.toNat * blockSize.toNat :=
      Nat.mul_le_mul_right _ below
    rw [Nat.add_mul, Nat.mul_comm blockCount.toNat] at step
    rw [toNat_block (by omega) within below]
    omega
  have apart : ((List.range blockCount.toNat).reverse.map (block poolData blockSize)).Pairwise
      fun block other => block.toNat + blockSize.toNat ≤ other.toNat ∨
        other.toNat + blockSize.toNat ≤ block.toNat := by
    rw [List.pairwise_map, List.pairwise_reverse]
    refine List.pairwise_lt_range.imp_of_mem fun {index other} _ member less => ?_
    exact Or.inr (block_apart (by omega) within (List.mem_range.mp member) less)
  constructor
  · refine ⟨_, isList ▸ threads, by simp, ?_, apart, ?_⟩
    · refine apart.imp fun {block other} apart same => ?_
      rw [same] at apart
      omega
    · intro block member
      obtain ⟨index, isIndex, rfl⟩ := List.mem_map.mp member
      have bounds := inside index (List.mem_range.mp (List.mem_reverse.mp isIndex))
      rw [isData]
      exact ⟨wide, bounds⟩
  · intro address outside
    rw [isData] at outside
    apply same
    intro index below
    have bounds := inside index below
    omega

theorem Covers.enough {before : Bytes} {area : Nat}
    (covers : Covers pool before after blockCount blockSize area) :
    blockCount.toNat * blockSize.toNat ≤ area ∧ (blockCount ≠ 0 → 4 ≤ blockSize.toNat) := by
  obtain ⟨⟨blocks, threads, length, distinct, apart, inside⟩, same⟩ := covers
  constructor
  · have bounds : ∀ piece ∈ blocks.map BitVec.toNat, pool.poolData.toNat ≤ piece ∧
        piece + blockSize.toNat ≤ pool.poolData.toNat + area := by
      intro piece member
      obtain ⟨block, isBlock, rfl⟩ := List.mem_map.mp member
      exact (inside block isBlock).2
    have enough := length_mul_le_of_apart (List.pairwise_map.mpr apart) bounds
    rwa [List.length_map, length] at enough
  · intro positive
    cases blocks with
    | nil => exact (positive (BitVec.eq_of_toNat_eq length.symm)).elim
    | cons block rest => exact (inside block List.mem_cons_self).1

theorem room_of_new (made : osMemoryPoolNew memory blockCount blockSize attr alloc context =
      some (pool, after)) :
    blockSize = (blockSize + 3) &&& ~~~3 ∧
      room blockCount blockSize attr alloc = some (pool.control, pool.poolData) ∧
      pool.freeList = (threadBlocks pool.poolData blockSize memory blockCount.toNat).2 ∧
      after = (threadBlocks pool.poolData blockSize memory blockCount.toNat).1 := by
  simp only [osMemoryPoolNew] at made
  split at made
  · cases made
  · split at made
    · cases made
    · next aligned =>
        obtain ⟨⟨control, data⟩, isRoom, built⟩ := Option.map_eq_some_iff.mp made
        cases built
        exact ⟨Decidable.not_not.mp aligned, isRoom, rfl, rfl⟩

theorem toNat_aligned (aligned : blockSize = (blockSize + 3) &&& ~~~3) (positive : blockSize ≠ 0) :
    4 ≤ blockSize.toNat := by
  have low : blockSize &&& 3 = 0 := by
    rw [aligned, BitVec.and_assoc, show (~~~3 &&& 3 : Word) = 0 by decide]
    exact BitVec.and_zero
  have mod := congrArg BitVec.toNat low
  rw [BitVec.toNat_and, show (3 : Word).toNat = 2 ^ 2 - 1 by decide, Nat.and_two_pow_sub_one_eq_mod]
    at mod
  have some_ : blockSize.toNat ≠ 0 := fun zero => positive (BitVec.eq_of_toNat_eq zero)
  have zero : (0 : Word).toNat = 0 := rfl
  rw [zero] at mod
  omega

theorem room_fits {control : Word}
    (isRoom : room blockCount blockSize attr alloc = some (control, poolData))
    (provided : Provided attr alloc) (positive : blockCount ≠ 0) (wide : 4 ≤ blockSize.toNat)
    (unwrapped : Unwrapped blockCount blockSize attr) :
    poolData ≠ 0 ∧ poolData.toNat + dataArea blockCount blockSize attr ≤ 2 ^ 32 ∧
      blockSize.toNat * blockCount.toNat ≤ dataArea blockCount blockSize attr := by
  have some_ : 0 < blockCount.toNat :=
    Nat.pos_of_ne_zero fun zero => positive (BitVec.eq_of_toNat_eq zero)
  have product : 0 < blockSize.toNat * blockCount.toNat := Nat.mul_pos (by omega) some_
  have isSize : size.toNat = 152 := by decide
  simp only [room] at isRoom
  split at isRoom
  · next none_ =>
      rw [Unwrapped, if_pos none_.2] at unwrapped
      have whole : (size + blockSize * blockCount).toNat =
          152 + blockSize.toNat * blockCount.toNat := by
        rw [BitVec.toNat_add, BitVec.toNat_mul, isSize,
          Nat.mod_eq_of_lt (show blockSize.toNat * blockCount.toNat < 2 ^ 32 by omega)]
        apply Nat.mod_eq_of_lt
        omega
      rw [dataArea, if_pos none_.2, whole, isSize]
      by_cases found : rtos2PoolAlloc alloc (blockSize * blockCount) = 0
      · rw [if_pos found] at isRoom
        cases isRoom
      · rw [if_neg found] at isRoom
        cases isRoom
        have bound : (rtos2PoolAlloc alloc (blockSize * blockCount)).toNat +
            (size + blockSize * blockCount).toNat ≤ 2 ^ 32 := provided.alloc _ found
        rw [whole] at bound
        have place : (rtos2PoolAlloc alloc (blockSize * blockCount) + size).toNat =
            (rtos2PoolAlloc alloc (blockSize * blockCount)).toNat + 152 := by
          rw [BitVec.toNat_add, isSize]
          apply Nat.mod_eq_of_lt
          omega
        refine ⟨?_, by omega, by omega⟩
        intro null
        have zero : (0 : Word).toNat = 0 := rfl
        rw [null, zero] at place
        omega
  · split at isRoom
    · next both =>
        rw [Unwrapped, if_neg both.2] at unwrapped
        rw [dataArea, if_neg both.2]
        split at isRoom
        · cases isRoom
        · next enough =>
            cases isRoom
            have size_ : (blockSize * blockCount).toNat = blockSize.toNat * blockCount.toNat := by
              rw [BitVec.toNat_mul]
              exact Nat.mod_eq_of_lt unwrapped
            have large := BitVec.not_lt.mp fun less => enough (Or.inr less)
            rw [BitVec.le_def, size_] at large
            exact ⟨both.2, provided.data both.2, large⟩
    · cases isRoom

/-- A pool covers its blocks exactly if it has none, or its blocks are not empty and no size that the
creation computes wraps around. -/
theorem covers_iff (made : osMemoryPoolNew memory blockCount blockSize attr alloc context =
      some (pool, after)) (provided : Provided attr alloc) :
    Covers pool memory after blockCount blockSize (dataArea blockCount blockSize attr) ↔
      blockCount = 0 ∨ (blockSize ≠ 0 ∧ Unwrapped blockCount blockSize attr) := by
  obtain ⟨aligned, isRoom, isList, isAfter⟩ := room_of_new made
  have isSize : size.toNat = 152 := by decide
  constructor
  · intro covers
    by_cases none_ : blockCount = 0
    · exact Or.inl none_
    · obtain ⟨enough, wide⟩ := covers.enough
      have wide := wide none_
      have some_ : 0 < blockCount.toNat :=
        Nat.pos_of_ne_zero fun zero => none_ (BitVec.eq_of_toNat_eq zero)
      have product : 0 < blockCount.toNat * blockSize.toNat := Nat.mul_pos some_ (by omega)
      rw [Nat.mul_comm] at enough product
      refine Or.inr ⟨?_, ?_⟩
      · rintro rfl
        simp at wide
      · rw [Unwrapped]
        rw [dataArea] at enough
        by_cases dynamic : attr.mpMem = 0
        · have small := (size + blockSize * blockCount).isLt
          rw [if_pos dynamic] at enough ⊢
          omega
        · have supplied := attr.mpSize.isLt
          rw [if_neg dynamic] at enough ⊢
          omega
  · rintro (rfl | ⟨positive, unwrapped⟩)
    · subst isAfter
      exact ⟨⟨[], isList, rfl, List.nodup_nil, List.Pairwise.nil, by simp⟩, fun _ _ => rfl⟩
    · by_cases none_ : blockCount = 0
      · subst none_ isAfter
        exact ⟨⟨[], isList, rfl, List.nodup_nil, List.Pairwise.nil, by simp⟩, fun _ _ => rfl⟩
      · have wide := toNat_aligned aligned positive
        obtain ⟨present, fits, enough⟩ := room_fits isRoom provided none_ wide unwrapped
        subst isAfter
        exact covers_of_fits present wide fits enough rfl isList

def kilobyte : MemoryPoolAttr := ⟨0x20000000, 152, 0x20000100, 1024⟩

def smallPiece (size : Word) : Word := if size ≤ 0x1000 then 0x20000000 else 0

theorem provided_kilobyte : Provided kilobyte smallPiece where
  data _ := by decide
  alloc size found := by
    have small : size ≤ 0x1000 := by
      by_contra large
      exact found (if_neg large)
    rw [smallPiece, if_pos small]
    have bound := BitVec.le_def.mp small
    have limit : (0x1000 : Word).toNat = 4096 := rfl
    have place : (0x20000000 : Word).toNat = 536870912 := rfl
    omega

theorem covers_iff_four :
    ∃ pool after, osMemoryPoolNew (fun _ => 0) 4 16 kilobyte smallPiece .thread =
      some (pool, after) ∧ Covers pool (fun _ => 0) after 4 16 1024 := by
  obtain ⟨⟨pool, after⟩, made⟩ := Option.isSome_iff_exists.mp
    (show (osMemoryPoolNew (fun _ => 0) 4 16 kilobyte smallPiece .thread).isSome by decide)
  exact ⟨pool, after, made, (covers_iff made provided_kilobyte).mpr (by decide)⟩

theorem not_covers_two :
    ¬∀ blockCount blockSize pool after,
      osMemoryPoolNew (fun _ => 0) blockCount blockSize kilobyte smallPiece .thread =
        some (pool, after) → Covers pool (fun _ => 0) after blockCount blockSize 1024 := by
  intro always
  obtain ⟨⟨pool, after⟩, made⟩ := Option.isSome_iff_exists.mp
    (show (osMemoryPoolNew (fun _ => 0) 2 0x80000000 kilobyte smallPiece .thread).isSome by decide)
  have enough := (always 2 0x80000000 pool after made).enough.1
  exact absurd enough (by decide)

end MemoryPool

end PicoToolkit
