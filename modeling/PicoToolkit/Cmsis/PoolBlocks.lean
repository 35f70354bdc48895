import PicoToolkit.Cmsis.Pool

/-!
The pointers that a memory pool takes for its blocks.
-/

namespace PicoToolkit

/-- What the range check of `struct rtos_memory_pool` reads.  Nothing else is known of the pool: the area
may wrap around, and the blocks may have any size. -/
structure PoolArea where
  poolData : Word
  blockSize : Word
  capacity : Word

namespace PoolArea

variable (pool : PoolArea)

def marker : Word := rtosMemoryPoolMarker

/-- `block < pool->pool_data || block > pool->pool_data + (pool->block_size * pool->capacity)` fails. -/
def InRange (block : Word) : Prop :=
  ¬(block < pool.poolData ∨ block > pool.poolData + pool.blockSize * pool.capacity)

instance (block : Word) : Decidable (pool.InRange block) := inferInstanceAs (Decidable ¬_)

def IsBlock (block : Word) : Prop :=
  ∃ index < pool.capacity.toNat, block = pool.poolData + BitVec.ofNat 32 index * pool.blockSize

/-- `osMemoryPoolFree` up to the spin lock: it goes on to put the block on the free list, or returns. -/
def osMemoryPoolFreeStart (block : Word) (context : Context) : FreePlace ⊕ OsStatus :=
  osChecked (osKernelContextIsValid true 0 context) <|
    osChecked (osIsResourceValid marker rtosMemoryPoolMarker) <|
      if pool.InRange block then .inl (.push context) else .inr .osErrorParameter

def osMemoryPoolIsBlockValid (block : Word) (context : Context) : OsStatus :=
  if osKernelContextIsValid true 0 context ≠ .osOK then .osOK
  else if osIsResourceValid marker rtosMemoryPoolMarker ≠ .osOK then .osOK
  else if pool.InRange block then .osOK
  else .osErrorParameter

def RefusesOthers (block : Word) (context : Context) : Prop :=
  ¬pool.IsBlock block →
    pool.osMemoryPoolFreeStart block context = .inr .osErrorParameter ∧
      pool.osMemoryPoolIsBlockValid block context = .osErrorParameter

theorem osMemoryPoolFreeStart_eq (block : Word) (context : Context) :
    pool.osMemoryPoolFreeStart block context =
      if pool.InRange block then .inl (.push context) else .inr .osErrorParameter := by
  cases context with
  | thread => rfl
  | handler => rfl

theorem osMemoryPoolIsBlockValid_eq (block : Word) (context : Context) :
    pool.osMemoryPoolIsBlockValid block context =
      if pool.InRange block then .osOK else .osErrorParameter := by
  cases context with
  | thread => rfl
  | handler => rfl

/-- A pointer is treated right just when it is a block, or outside of the range whose end counts as inside. -/
theorem refusesOthers_iff (block : Word) (context : Context) :
    pool.RefusesOthers block context ↔ pool.IsBlock block ∨ ¬pool.InRange block := by
  rw [RefusesOthers, osMemoryPoolFreeStart_eq, osMemoryPoolIsBlockValid_eq]
  by_cases within : pool.InRange block
  · rw [if_pos within, if_pos within]
    constructor
    · intro refuses
      by_contra neither
      have refused := refuses fun isBlock => neither (.inl isBlock)
      cases refused.2
    · rintro (isBlock | outside)
      · exact fun other => absurd isBlock other
      · exact absurd within outside
  · rw [if_neg within, if_neg within]
    exact iff_of_true (fun _ => ⟨rfl, rfl⟩) (.inr within)

end PoolArea

def fourBlocks : PoolArea where
  poolData := 0x20000100
  blockSize := 16
  capacity := 4

theorem fourBlocks_accepts :
    ¬fourBlocks.RefusesOthers 0x20000140 .thread ∧ ¬fourBlocks.RefusesOthers 0x20000104 .thread := by
  have foreign (block : Word)
      (apart : ∀ index < 4, block ≠ fourBlocks.poolData + BitVec.ofNat 32 index * 16) :
      ¬fourBlocks.IsBlock block := by
    rintro ⟨index, below, same⟩
    exact apart index below same
  constructor
  · intro refuses
    have refused := refuses (foreign 0x20000140 (by decide))
    exact absurd refused.2 (by decide)
  · intro refuses
    have refused := refuses (foreign 0x20000104 (by decide))
    exact absurd refused.2 (by decide)

def RtosMemoryPool.area (pool : RtosMemoryPool) : PoolArea where
  poolData := pool.poolData
  blockSize := pool.blockSize
  capacity := pool.capacity

theorem osMemoryPoolFreeStart_area (pool : RtosMemoryPool) (block : Word) (context : Context) :
    osMemoryPoolFreeStart pool block context = pool.area.osMemoryPoolFreeStart block context := by
  have same : pool.inRange block = decide (pool.area.InRange block) := by
    rw [RtosMemoryPool.inRange, ← Bool.decide_or, ← decide_not]
    rfl
  rw [PoolArea.osMemoryPoolFreeStart_eq]
  by_cases within : pool.area.InRange block
  · have inside : pool.inRange block = true := by
      rw [same]
      exact decide_eq_true within
    rw [if_pos within]
    cases context with
    | thread => exact if_pos inside
    | handler => exact if_pos inside
  · have outside : ¬pool.inRange block = true := by
      rw [same, decide_eq_true_eq]
      exact within
    rw [if_neg within]
    cases context with
    | thread => exact if_neg outside
    | handler => exact if_neg outside

end PicoToolkit
