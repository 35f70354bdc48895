import PicoToolkit.Cmsis.Pool

/-!
What the calls in progress account for: the value of the semaphore, the length of the free list, and
who owns each block.
-/

namespace PicoToolkit

open Transition Interleaving Stack

def AllocPlace.tokens : AllocPlace ⊕ Word → Int
  | .inl (.acquire _) => 0
  | .inl .pop => -1
  | .inr block => if block = 0 then 0 else -1

def AllocPlace.entries : AllocPlace ⊕ Word → Int
  | .inl _ => 0
  | .inr block => if block = 0 then 0 else -1

def FreePlace.tokens : FreePlace ⊕ OsStatus → Int
  | .inl (.release place) => (incremented (.inl place)).toNat
  | .inr .osOK => 1
  | _ => 0

def FreePlace.entries : FreePlace ⊕ OsStatus → Int
  | .inl (.push _) => 0
  | .inl _ => 1
  | .inr status => if status = .osOK then 1 else 0

theorem AllocPlace.tokens_afterAcquire (result : AcquirePlace ⊕ OsStatus) :
    tokens (afterAcquire result) = -(decremented result).toNat := by
  rcases result with place | status
  · rfl
  · cases status with
    | _ => rfl

theorem AllocPlace.entries_afterAcquire (result : AcquirePlace ⊕ OsStatus) :
    entries (afterAcquire result) = 0 := by
  rcases result with place | status
  · rfl
  · cases status with
    | _ => rfl

theorem FreePlace.tokens_afterRelease (result : ReleasePlace ⊕ OsStatus) :
    tokens (afterRelease result) = (incremented result).toNat := by
  rcases result with place | status
  · rfl
  · cases status with
    | _ => rfl

theorem FreePlace.entries_afterRelease (result : ReleasePlace ⊕ OsStatus) :
    entries (afterRelease result) = 1 := by
  rcases result with place | status
  · rfl
  · cases status with
    | _ => rfl

theorem AllocPlace.afterAcquire_block {result : AcquirePlace ⊕ OsStatus} {block : Word}
    (isBlock : afterAcquire result = .inr block) : block = 0 := by
  rcases result with place | status
  · cases isBlock
  · cases status with
    | osOK => cases isBlock
    | _ => exact (Sum.inr.inj isBlock).symm

theorem osMemoryPoolAllocStart_cases (pool : RtosMemoryPool) (timeout : Word) (context : Context) :
    (∃ place, osMemoryPoolAllocStart pool timeout context = .inl (.acquire place)) ∨
      osMemoryPoolAllocStart pool timeout context = .inr 0 := by
  rw [osMemoryPoolAllocStart]
  split
  · exact Or.inr rfl
  · split
    · exact Or.inr rfl
    · rcases osSemaphoreAcquireStart_cases pool.semaphore timeout context with
        ⟨place, start⟩ | ⟨error, fails, start⟩
      · rw [start]
        exact Or.inl ⟨place, rfl⟩
      · rw [start]
        cases error with
        | osOK => exact (fails rfl).elim
        | _ => exact Or.inr rfl

theorem osSemaphoreReleaseStart_pool (pool : RtosMemoryPool) (context : Context) :
    osSemaphoreReleaseStart pool.semaphore context = .inl .check := by
  cases context with
  | _ => rfl

def PoolPlace.tokens : PoolPlace → Int
  | .alloc _ place => AllocPlace.tokens place
  | .free _ place => FreePlace.tokens place
  | _ => 0

def PoolPlace.entries : PoolPlace → Int
  | .alloc _ place => AllocPlace.entries place
  | .free _ place => FreePlace.entries place
  | _ => 0

def PoolPlace.returns (block : Word) : PoolPlace → Int
  | .free freed (.inl (.push _)) => if freed = block then 1 else 0
  | _ => 0

def PoolPlace.isSound : PoolPlace → Bool
  | .free _ (.inl (.remove _)) => false
  | .free block (.inr status) => decide (block ≠ 0) && decide (status = .osOK)
  | .free block _ => decide (block ≠ 0)
  | _ => true

/-- The free list holds the given blocks; with the calls in progress they account for the value of
the semaphore and for every block of the pool. -/
structure Pooled (pool : RtosMemoryPool) (free : List Word)
    (shared : Shared Word Word PoolData PoolPlace) : Prop where
  threads : Threads shared.data.memory 0 shared.data.freeList free
  value : ((shared.memory pool.value).toNat : Int) =
    pool.capacity.toNat + total PoolPlace.tokens shared.places
  length : (free.length : Int) = pool.capacity.toNat + total PoolPlace.entries shared.places
  owned : ∀ block, block ≠ 0 → (free.count block : Int) + allocated block shared.places +
    total (PoolPlace.returns block) shared.places = if block ∈ pool.blocks then 1 else 0
  nonneg : ∀ block, block ≠ 0 → 0 ≤ allocated block shared.places
  sound : ∀ place ∈ shared.places, place.isSound

namespace Pooled

variable {pool : RtosMemoryPool} {free : List Word} {shared : Shared Word Word PoolData PoolPlace}
  {block : Word} {index : Nat} {place next : PoolPlace}

theorem returns_nonneg (block : Word) (place : PoolPlace) : 0 ≤ place.returns block := by
  unfold PoolPlace.returns
  split
  · split
    · omega
    · omega
  · omega

theorem count_le (pooled : Pooled pool free shared) (positive : block ≠ 0) :
    (free.count block : Int) + allocated block shared.places ≤ if block ∈ pool.blocks then 1 else 0 := by
  have owned := pooled.owned block positive
  have returns := @total_nonneg _ _ shared.places (returns_nonneg block)
  omega

theorem mem_blocks (pooled : Pooled pool free shared) (member : block ∈ free) :
    block ∈ pool.blocks ∧ allocated block shared.places = 0 ∧ free.count block = 1 := by
  have positive := pooled.threads.ne_null member
  have counted := List.count_pos_iff.mpr member
  have bound := pooled.count_le positive
  have nonneg := pooled.nonneg block positive
  split at bound
  · rename_i inside
    exact ⟨inside, by omega, by omega⟩
  · omega

theorem nodup (pooled : Pooled pool free shared) : free.Nodup := by
  refine List.nodup_iff_count_le_one.mpr fun block => ?_
  by_cases member : block ∈ free
  · exact Nat.le_of_eq (pooled.mem_blocks member).2.2
  · rw [List.count_eq_zero_of_not_mem member]
    omega

theorem length_le (pooled : Pooled pool free shared) : free.length ≤ pool.capacity.toNat := by
  rw [← RtosMemoryPool.length_blocks]
  exact (List.subperm_of_subset pooled.nodup fun block member =>
    (pooled.mem_blocks member).1).length_le

theorem tokens_le_entries (place : PoolPlace) : place.tokens ≤ place.entries := by
  cases place with
  | alloc timeout place =>
      rcases place with (_ | _) | block
      · exact Int.le_refl 0
      · exact Int.neg_nonpos_of_nonneg Int.one_nonneg
      · exact Int.le_refl _
  | free block place =>
      rcases place with (_ | place | _) | status
      · exact Int.le_refl 0
      · cases place with
        | check | add => exact Int.one_nonneg
        | wake => exact Int.le_refl 1
      · exact Int.one_nonneg
      · cases status with
        | osOK => exact Int.le_refl 1
        | _ => exact Int.le_refl 0
  | store | stored => exact Int.le_refl 0

theorem value_le (pooled : Pooled pool free shared) (found : shared.places[index]? = some place) :
    (shared.memory pool.value).toNat + (place.entries - place.tokens) ≤ free.length := by
  have ahead := @le_total _ (fun place : PoolPlace => place.entries - place.tokens) shared.places
    (fun place => by
      have least := tokens_le_entries place
      omega) index place found
  have difference : total (fun place : PoolPlace => place.entries - place.tokens) shared.places =
      total PoolPlace.entries shared.places - total PoolPlace.tokens shared.places := total_sub
  have value := pooled.value
  have length := pooled.length
  omega

theorem value_lt (pooled : Pooled pool free shared) (found : shared.places[index]? = some place)
    (ahead : place.tokens < place.entries) : shared.memory pool.value < pool.capacity := by
  have bound := pooled.value_le found
  have most := pooled.length_le
  rw [BitVec.lt_def]
  omega

theorem move (pooled : Pooled pool free shared) (found : shared.places[index]? = some place)
    {memory : Word → Word}
    (value : ((memory pool.value).toNat : Int) =
      (shared.memory pool.value).toNat + next.tokens - place.tokens)
    (entries : next.entries = place.entries) (gives : ∀ block, block ≠ 0 →
      next.gives block = place.gives block)
    (returns : ∀ block, next.returns block = place.returns block) (sound : next.isSound) :
    Pooled pool free ⟨memory, shared.data, shared.places.set index next⟩ := by
  have given : ∀ block, block ≠ 0 → allocated block (shared.places.set index next) =
      allocated block shared.places := by
    intro block positive
    rw [allocated, total_set found, gives block positive, allocated]
    omega
  refine ⟨pooled.threads, ?_, ?_, ?_, ?_, ?_⟩
  · rw [total_set found, value, pooled.value]
    omega
  · rw [total_set found, entries, pooled.length]
    omega
  · intro block positive
    rw [given block positive, total_set found, returns, ← pooled.owned block positive]
    omega
  · intro block positive
    rw [given block positive]
    exact pooled.nonneg block positive
  · intro other member
    rcases List.mem_or_eq_of_mem_set member with old | rfl
    · exact pooled.sound other old
    · exact sound

theorem acquire {timeout : Word} {acquiring : AcquirePlace} {answer : Result}
    (pooled : Pooled pool free shared)
    (found : shared.places[index]? = some (.alloc timeout (.inl (.acquire acquiring)))) :
    Pooled pool free (Program.perform shared index answer
      ((osMemoryPoolAlloc pool timeout (.acquire acquiring)).map (.alloc timeout))) := by
  rw [osMemoryPoolAlloc, Op.map_map]
  obtain ⟨result, memory, performs, value, _⟩ := @perform_osSemaphoreAcquire _ _ pool.semaphore
    shared index answer timeout acquiring (fun result => .alloc timeout (AllocPlace.afterAcquire result))
  rw [performs]
  refine pooled.move found ?_ ?_ ?_ (fun _ => rfl) rfl
  · have before : AllocPlace.tokens (.inl (.acquire acquiring)) = 0 := rfl
    simp only [PoolPlace.tokens, AllocPlace.tokens_afterAcquire, before]
    rw [show pool.value = pool.semaphore.value from rfl, value]
    omega
  · exact AllocPlace.entries_afterAcquire result
  · intro block positive
    cases after : AllocPlace.afterAcquire result with
    | inl place => rfl
    | inr other =>
        obtain rfl := AllocPlace.afterAcquire_block after
        exact if_neg positive.symm

theorem exists_first {timeout : Word} (pooled : Pooled pool free shared)
    (found : shared.places[index]? = some (.alloc timeout (.inl .pop))) :
    ∃ rest, free = shared.data.freeList :: rest := by
  have bound := pooled.value_le found
  have threads := pooled.threads
  cases free with
  | nil =>
      simp only [PoolPlace.entries, PoolPlace.tokens, AllocPlace.entries, AllocPlace.tokens,
        List.length_nil] at bound
      omega
  | cons first rest => exact ⟨rest, by rw [threads.1]⟩

theorem pop {timeout : Word} {answer : Result} (pooled : Pooled pool free shared)
    (found : shared.places[index]? = some (.alloc timeout (.inl .pop))) :
    Pooled pool free.tail (Program.perform shared index answer
      ((osMemoryPoolAlloc pool timeout .pop).map (.alloc timeout))) := by
  obtain ⟨rest, rfl⟩ := pooled.exists_first found
  have positive : shared.data.freeList ≠ 0 := pooled.threads.ne_null List.mem_cons_self
  obtain ⟨⟨_, _, threads⟩, value, length, owned, nonneg, sound⟩ := pooled
  have given : ∀ block, allocated block (shared.places.set index
      (.alloc timeout (.inr shared.data.freeList))) =
        allocated block shared.places + if shared.data.freeList = block then 1 else 0 := by
    intro block
    rw [allocated, total_set found, allocated]
    simp only [PoolPlace.gives]
    omega
  refine ⟨threads, ?_, ?_, ?_, ?_, ?_⟩
  · simp only [osMemoryPoolAlloc, Op.map, Program.perform, total_set found, value, PoolPlace.tokens,
      AllocPlace.tokens, if_neg positive]
    omega
  · simp only [osMemoryPoolAlloc, Op.map, Program.perform, total_set found, PoolPlace.entries,
      AllocPlace.entries, if_neg positive, List.tail_cons]
    rw [List.length_cons] at length
    omega
  · intro block isBlock
    have before := owned block isBlock
    simp only [osMemoryPoolAlloc, Op.map, Program.perform, given, total_set found,
      PoolPlace.returns, List.tail_cons]
    rw [List.count_cons] at before
    by_cases same : shared.data.freeList = block
    · simp only [same, beq_self_eq_true, if_true] at before ⊢
      omega
    · simp only [beq_iff_eq, same, if_false] at before ⊢
      omega
  · intro block isBlock
    have before := nonneg block isBlock
    simp only [osMemoryPoolAlloc, Op.map, Program.perform, given]
    split
    · omega
    · omega
  · intro other member
    rcases List.mem_or_eq_of_mem_set member with old | rfl
    · exact sound other old
    · rfl

/-- A block that a call is about to put on the free list belongs to the pool and is not there. -/
theorem mem_blocks_of_push {context : Context} (pooled : Pooled pool free shared)
    (found : shared.places[index]? = some (.free block (.inl (.push context)))) :
    block ≠ 0 ∧ block ∉ free := by
  have positive : block ≠ 0 :=
    of_decide_eq_true (pooled.sound _ (List.mem_of_getElem? found))
  refine ⟨positive, fun member => ?_⟩
  have own : PoolPlace.returns block (.free block (.inl (.push context))) ≤
      total (PoolPlace.returns block) shared.places := le_total (returns_nonneg block) found
  have owned := pooled.owned block positive
  obtain ⟨inside, unallocated, once⟩ := pooled.mem_blocks member
  simp only [PoolPlace.returns, if_true] at own
  rw [once, unallocated, if_pos inside] at owned
  omega

theorem push {context : Context} {answer : Result} (pooled : Pooled pool free shared)
    (found : shared.places[index]? = some (.free block (.inl (.push context)))) :
    Pooled pool (block :: free) (Program.perform shared index answer
      ((osMemoryPoolFree pool block (.push context)).map (.free block))) := by
  obtain ⟨positive, fresh⟩ := pooled.mem_blocks_of_push found
  have next : FreePlace.afterRelease (osSemaphoreReleaseStart pool.semaphore context) =
      .inl (.release .check) := by rw [osSemaphoreReleaseStart_pool, FreePlace.afterRelease]
  obtain ⟨threads, value, length, owned, nonneg, sound⟩ := pooled
  have given : ∀ other, allocated other (shared.places.set index
      (.free block (.inl (.release .check)))) = allocated other shared.places := by
    intro other
    rw [allocated, total_set found, allocated]
    simp only [PoolPlace.gives]
    omega
  simp only [osMemoryPoolFree, Op.map, Program.perform, next]
  refine ⟨threads.push fresh positive, ?_, ?_, ?_, ?_, ?_⟩
  · simp only [total_set found, value, PoolPlace.tokens, FreePlace.tokens, incremented,
      Bool.toNat_false]
    omega
  · simp only [total_set found, PoolPlace.entries, FreePlace.entries, List.length_cons]
    omega
  · intro other isBlock
    have before := owned other isBlock
    simp only [given, total_set found, PoolPlace.returns, List.count_cons, beq_iff_eq]
    split
    · simp only [Nat.cast_add, Nat.cast_one]
      omega
    · simp only [Nat.add_zero]
      omega
  · intro other isBlock
    rw [given]
    exact nonneg other isBlock
  · intro other member
    rcases List.mem_or_eq_of_mem_set member with old | rfl
    · exact sound other old
    · exact decide_eq_true positive

theorem release {releasing : ReleasePlace} {answer : Result} (pooled : Pooled pool free shared)
    (found : shared.places[index]? = some (.free block (.inl (.release releasing)))) :
    Pooled pool free (Program.perform shared index answer
      ((osMemoryPoolFree pool block (.release releasing)).map (.free block))) := by
  have fits : releasing ≠ .wake → shared.memory pool.value < pool.capacity := by
    intro before
    refine pooled.value_lt found ?_
    cases releasing with
    | check | add => exact Int.one_pos
    | wake => exact (before rfl).elim
  rw [osMemoryPoolFree, Op.map_map]
  obtain ⟨result, memory, performs, value, _, _, succeeds⟩ := @perform_osSemaphoreRelease _ _
    pool.semaphore shared index answer releasing (fun result => .free block (FreePlace.afterRelease result))
    (fun adds => fits (by rw [adds]; decide))
  have positive : block ≠ 0 :=
    of_decide_eq_true (pooled.sound _ (List.mem_of_getElem? found))
  rw [performs]
  refine pooled.move found ?_ ?_ (fun _ _ => rfl) ?_ ?_
  · have before : FreePlace.tokens (.inl (.release releasing)) =
        (incremented (.inl releasing)).toNat := rfl
    simp only [PoolPlace.tokens, FreePlace.tokens_afterRelease, before]
    exact value
  · exact FreePlace.entries_afterRelease result
  · intro other
    rcases result with place | status
    · rfl
    · cases status with
      | _ => rfl
  · rcases result with place | status
    · exact decide_eq_true positive
    · obtain rfl := succeeds fits status rfl
      exact (Bool.and_eq_true _ _).mpr ⟨decide_eq_true positive, rfl⟩

theorem call (pooled : Pooled pool free shared) (tokens : next.tokens = 0)
    (entries : next.entries = 0) (gives : ∀ block, block ≠ 0 →
      next.gives block + next.returns block = 0 ∧ 0 ≤ allocated block shared.places + next.gives block)
    (sound : next.isSound) :
    Pooled pool free { shared with places := shared.places ++ [next] } := by
  obtain ⟨threads, value, length, owned, nonneg, soundBefore⟩ := pooled
  refine ⟨threads, ?_, ?_, ?_, ?_, ?_⟩
  · rw [total_append, total_cons, total_nil, tokens, value]
    omega
  · rw [total_append, total_cons, total_nil, entries, length]
    omega
  · intro block positive
    have change := (gives block positive).1
    rw [allocated, total_append, total_append, total_cons, total_cons, total_nil, total_nil,
      ← owned block positive, allocated]
    omega
  · intro block positive
    have change := (gives block positive).2
    rw [allocated, total_append, total_cons, total_nil]
    rw [allocated] at change
    omega
  · intro other member
    rcases List.mem_append.mp member with old | new
    · exact soundBefore other old
    · obtain rfl := List.mem_singleton.mp new
      exact sound

theorem store {address value : Word} {answer : Result} (apart : pool.Apart)
    (pooled : Pooled pool free shared)
    (found : shared.places[index]? = some (.store address value))
    (own : ∃ block ∈ pool.blocks, 0 < allocated block shared.places ∧
      block.toNat ≤ address.toNat ∧ address.toNat < block.toNat + pool.blockSize.toNat) :
    Pooled pool free (Program.perform shared index answer
      (.data fun data => ({ data with memory := Function.update data.memory address value },
        .stored) : ThreadOp PoolData PoolPlace)) := by
  obtain ⟨block, inside, isAllocated, above, below⟩ := own
  have outside : address ∉ free := by
    intro member
    obtain ⟨isBlock, unallocated, _⟩ := pooled.mem_blocks member
    obtain rfl := RtosMemoryPool.eq_of_within apart inside isBlock above (Or.inl below)
    omega
  have moved := @move _ _ _ index (.store address value) .stored pooled found shared.memory
    (by simp [PoolPlace.tokens]) rfl (fun _ _ => rfl) (fun _ => rfl) rfl
  exact ⟨pooled.threads.update outside value, moved.value, moved.length, moved.owned, moved.nonneg,
    moved.sound⟩

end Pooled

theorem osMemoryPoolFreeStart_of_mem {pool : RtosMemoryPool} {block : Word}
    (member : block ∈ pool.blocks) (context : Context) :
    osMemoryPoolFreeStart pool block context = .inl (.push context) := by
  have valid : osKernelContextIsValid true 0 context = .osOK := by
    cases context with
    | _ => rfl
  have marked : osIsResourceValid pool.marker rtosMemoryPoolMarker = .osOK := rfl
  rw [osMemoryPoolFreeStart, osChecked, if_pos valid, osChecked, if_pos marked,
    if_pos (RtosMemoryPool.inRange_of_mem member)]

theorem Pooled.step {pool : RtosMemoryPool} {free : List Word}
    {shared next : Shared Word Word PoolData PoolPlace} {move : Move Result (Context × PoolCall)}
    (apart : pool.Apart) (pooled : Pooled pool free shared) (keeps : KeepsToOwn pool shared move)
    (moved : (poolProgram pool).step shared move = some next) : ∃ after, Pooled pool after next := by
  cases move with
  | call entry =>
      obtain rfl := Option.some_inj.mp moved
      obtain ⟨context, call⟩ := entry
      refine ⟨free, ?_⟩
      cases call with
      | osMemoryPoolAlloc timeout =>
          have nonneg := pooled.nonneg
          simp only [poolProgram]
          rcases osMemoryPoolAllocStart_cases pool timeout context with ⟨place, start⟩ | start
          · rw [start]
            refine pooled.call rfl rfl (fun block positive => ⟨rfl, ?_⟩) rfl
            simpa [PoolPlace.gives] using nonneg block positive
          · rw [start]
            refine pooled.call rfl rfl (fun block positive => ?_) rfl
            have before := nonneg block positive
            simp only [PoolPlace.gives, PoolPlace.returns, if_neg positive.symm]
            omega
      | osMemoryPoolFree freed =>
          obtain ⟨positive, isAllocated⟩ := keeps
          have inside : freed ∈ pool.blocks := by
            by_contra outside
            have bound := pooled.count_le positive
            rw [if_neg outside] at bound
            omega
          simp only [poolProgram, osMemoryPoolFreeStart_of_mem inside]
          refine pooled.call rfl rfl (fun block isBlock => ?_) (decide_eq_true positive)
          have nonneg := pooled.nonneg block isBlock
          by_cases same : freed = block
          · subst same
            simp only [PoolPlace.gives, PoolPlace.returns, if_true]
            omega
          · simp only [PoolPlace.gives, PoolPlace.returns, if_neg same]
            omega
      | store address value =>
          refine pooled.call rfl rfl (fun block positive => ⟨rfl, ?_⟩) rfl
          simpa [poolProgram, PoolPlace.gives] using pooled.nonneg block positive
  | act index answer =>
      obtain ⟨place, op, found, isNext, rfl⟩ := Program.step_act moved
      cases place with
      | alloc timeout place =>
          rcases place with (place | _) | result
          · obtain rfl := Option.some_inj.mp isNext
            exact ⟨free, pooled.acquire found⟩
          · obtain rfl := Option.some_inj.mp isNext
            exact ⟨free.tail, pooled.pop found⟩
          · cases isNext
      | free block place =>
          rcases place with (context | releasing | status) | status
          · obtain rfl := Option.some_inj.mp isNext
            exact ⟨block :: free, pooled.push found⟩
          · obtain rfl := Option.some_inj.mp isNext
            exact ⟨free, pooled.release found⟩
          · cases pooled.sound _ (List.mem_of_getElem? found)
          · cases isNext
      | store address value =>
          obtain rfl := Option.some_inj.mp isNext
          simp only [KeepsToOwn, found] at keeps
          exact ⟨free, pooled.store apart found keeps⟩
      | stored => cases isNext

theorem threads_foldl_push {blocks free : List Word} {data : PoolData}
    (threads : Threads data.memory 0 data.freeList free) (nodup : (blocks ++ free).Nodup)
    (positive : ∀ block ∈ blocks, block ≠ 0) :
    Threads (blocks.foldl PoolData.push data).memory 0 (blocks.foldl PoolData.push data).freeList
      (blocks.reverse ++ free) := by
  induction blocks generalizing data free with
  | nil => exact threads
  | cons first rest ih =>
      rw [List.cons_append, List.nodup_cons, List.mem_append, not_or] at nodup
      obtain ⟨⟨notLater, notFree⟩, nodup⟩ := nodup
      rw [List.reverse_cons, List.append_assoc]
      refine ih (threads.push notFree (positive first List.mem_cons_self)) ?_ fun block member =>
        positive block (List.mem_cons_of_mem first member)
      exact List.nodup_middle.mpr (List.nodup_cons.mpr ⟨by simp [notLater, notFree], nodup⟩)

theorem pooled_initial {pool : RtosMemoryPool} (apart : pool.Apart) (contents : Word → Word) :
    Pooled pool pool.blocks.reverse ⟨fun address => if pool.cells address then pool.capacity else 0,
      pool.initialData contents, []⟩ := by
  have isCell : pool.cells pool.value := by simp [RtosMemoryPool.cells]
  refine ⟨?_, ?_, ?_, ?_, ?_, ?_⟩
  · have threads := @threads_foldl_push pool.blocks [] ⟨0, contents⟩ rfl
      (by simpa using RtosMemoryPool.nodup_blocks apart)
      (fun block => RtosMemoryPool.ne_zero_of_mem)
    simpa [RtosMemoryPool.initialData] using threads
  · simp [isCell]
  · simp
  · intro block _
    rw [List.count_reverse]
    split
    · rename_i inside
      simp [allocated, List.count_eq_one_of_mem (RtosMemoryPool.nodup_blocks apart) inside]
    · rename_i outside
      simp [allocated, List.count_eq_zero_of_not_mem outside]
  · intro block _
    simp [allocated]
  · simp

/-- What the pool promises: the free list holds blocks of the pool that nobody has, once each, and at
least as many as there are tokens; nobody gets a block twice; no alloc finds the list empty, and no
free fails; with no call in progress the count is the number of blocks that are allocated. -/
structure Conserved (pool : RtosMemoryPool) (data : PoolData) (value : Word)
    (places : List PoolPlace) (free : List Word) : Prop where
  threads : Threads data.memory 0 data.freeList free
  nodup : free.Nodup
  value_le : value.toNat ≤ free.length
  unallocated : ∀ block ∈ free, block ∈ pool.blocks ∧ allocated block places = 0
  once : ∀ block, block ≠ 0 → 0 ≤ allocated block places ∧ allocated block places ≤ 1
  pops : ∀ timeout, .alloc timeout (.inl .pop) ∈ places → data.freeList ∈ free
  frees : ∀ block status, .free block (.inl (.remove status)) ∉ places ∧
    (.free block (.inr status) ∈ places → status = .osOK)
  count : ∀ context, (∀ place ∈ places, (poolProgram pool).op place = none) →
    (osMemoryPoolGetCount pool context value).toNat =
      pool.blocks.countP fun block => decide (0 < allocated block places)

theorem osMemoryPoolGetCount_eq (pool : RtosMemoryPool) (context : Context) (value : Word) :
    osMemoryPoolGetCount pool context value = pool.capacity - value := by
  cases context with
  | _ => rfl

namespace Pooled

variable {pool : RtosMemoryPool} {free : List Word} {shared : Shared Word Word PoolData PoolPlace}

theorem over_of_quiet {place : PoolPlace} (quiet : (poolProgram pool).op place = none) :
    place.tokens = place.entries ∧ ∀ block, place.returns block = 0 := by
  rcases place with ⟨timeout, place | result⟩ | ⟨freed, place | status⟩ | _ | _
  · cases quiet
  · exact ⟨rfl, fun _ => rfl⟩
  · cases quiet
  · cases status with
    | _ => exact ⟨rfl, fun _ => rfl⟩
  · cases quiet
  · exact ⟨rfl, fun _ => rfl⟩

theorem countP_allocated (pooled : Pooled pool free shared) (apart : pool.Apart)
    (quiet : ∀ place ∈ shared.places, (poolProgram pool).op place = none) :
    pool.blocks.countP (fun block => decide (0 < allocated block shared.places)) + free.length =
      pool.capacity.toNat := by
  have taken : ∀ block ∈ pool.blocks, (0 < allocated block shared.places ↔ block ∉ free) := by
    intro block inside
    have positive := RtosMemoryPool.ne_zero_of_mem inside
    have owned := pooled.owned block positive
    have none : total (PoolPlace.returns block) shared.places = 0 :=
      (total_congr fun place member => (over_of_quiet (quiet place member)).2 block).trans
        (by simp [total])
    rw [none, if_pos inside] at owned
    rw [← List.count_eq_zero]
    omega
  have freed : pool.blocks.countP (fun block => decide (block ∈ free)) = free.length := by
    rw [List.countP_eq_length_filter]
    refine List.Perm.length_eq ((List.perm_ext_iff_of_nodup
      ((RtosMemoryPool.nodup_blocks apart).filter _) pooled.nodup).mpr fun block => ?_)
    simp only [List.mem_filter, decide_eq_true_eq, and_iff_right_iff_imp]
    exact fun member => (pooled.mem_blocks member).1
  have split := @List.length_eq_countP_add_countP _ (fun block => decide (block ∈ free)) pool.blocks
  rw [RtosMemoryPool.length_blocks, freed] at split
  rw [split, Nat.add_comm]
  congr 1
  refine List.countP_congr fun block inside => ?_
  simp [taken block inside]

theorem value_le_length (pooled : Pooled pool free shared) :
    (shared.memory pool.value).toNat ≤ free.length := by
  have least := @total_mono _ PoolPlace.entries shared.places PoolPlace.tokens tokens_le_entries
  have value := pooled.value
  have length := pooled.length
  omega

theorem conserved (pooled : Pooled pool free shared) (apart : pool.Apart) :
    Conserved pool shared.data (shared.memory pool.value) shared.places free := by
  have most := pooled.length_le
  have least := pooled.value_le_length
  refine ⟨pooled.threads, pooled.nodup, least, ?_, ?_, ?_, ?_, ?_⟩
  · intro block member
    obtain ⟨inside, unallocated, _⟩ := pooled.mem_blocks member
    exact ⟨inside, unallocated⟩
  · intro block positive
    have bound := pooled.count_le positive
    refine ⟨pooled.nonneg block positive, ?_⟩
    split at bound
    · omega
    · omega
  · intro timeout member
    obtain ⟨index, found⟩ := List.mem_iff_getElem?.mp member
    obtain ⟨rest, isFirst⟩ := pooled.exists_first found
    rw [isFirst]
    exact List.mem_cons_self
  · intro block status
    constructor
    · exact fun member => by cases pooled.sound _ member
    · exact fun member => of_decide_eq_true ((Bool.and_eq_true _ _).mp (pooled.sound _ member)).2
  · intro context quiet
    have taken := pooled.countP_allocated apart quiet
    have same : total PoolPlace.tokens shared.places = total PoolPlace.entries shared.places :=
      total_congr fun place member => (over_of_quiet (quiet place member)).1
    have value := pooled.value
    have length := pooled.length
    rw [osMemoryPoolGetCount_eq, BitVec.toNat_sub_of_le (BitVec.le_def.mpr (by omega))]
    omega

end Pooled

theorem confined_poolProgram (pool : RtosMemoryPool) : Confined pool.cells (poolProgram pool) := by
  constructor
  · intro place address act isNext
    suffices same : address = pool.value by simp [RtosMemoryPool.cells, same]
    rcases place with ⟨timeout, ((_ | _) | _) | _⟩ | ⟨freed, (_ | (_ | _ | _) | _) | _⟩ | _ | _
    all_goals
      cases isNext
      try rfl
  · intro place futex value flags resume isNext
    rcases place with ⟨timeout, ((_ | _) | _) | _⟩ | ⟨freed, (_ | (_ | _ | _) | _) | _⟩ | _ | _
    all_goals cases isNext

/-- As long as its users keep to the blocks that they own, a pool whose blocks have an address each
keeps what it promises. -/
theorem conserved_of_guarded {cores : Nat} [NeZero cores] {pool : RtosMemoryPool}
    (apart : pool.Apart) {contents : Word → Word} {machine : Machine cores PoolData PoolPlace}
    (reached : (poolSystem cores pool contents).Guarded
      (Machine.Meets (poolProgram pool) pool.cells (KeepsToOwn pool)) machine) :
    ∃ free, Conserved pool machine.data (machine.kernel.memory pool.value)
      (machine.calls.map Call.place) free := by
  have isCell : pool.cells pool.value := by simp [RtosMemoryPool.cells]
  obtain ⟨free, pooled⟩ := invariant_of_machine (fun shared => ∃ free, Pooled pool free shared)
    (confined_poolProgram pool) ⟨_, pooled_initial apart contents⟩
    (fun shared move next ⟨free, pooled⟩ keeps moved => pooled.step apart keeps moved) reached
  have conserved := pooled.conserved apart
  rw [Machine.memory_shared isCell] at conserved
  exact ⟨free, conserved⟩

def twoBlocks : RtosMemoryPool where
  value := 0x104
  futex := 0x100
  poolData := 0x20000100
  blockSize := 4
  capacity := 2
  aligned := by decide
  present := by decide
  fits := by decide

theorem conserved_of_guarded_freed :
    ∃ machine : Machine 1 PoolData PoolPlace,
      .free 0x20000104 (.inr .osOK) ∈ machine.calls.map Call.place ∧
        ∃ free, Conserved twoBlocks machine.data (machine.kernel.memory twoBlocks.value)
          (machine.calls.map Call.place) free := by
  obtain ⟨machine, reached, freed⟩ := exists_machine (poolProgram twoBlocks)
    (Machine.Meets (poolProgram twoBlocks) twoBlocks.cells (KeepsToOwn twoBlocks))
    [twoBlocks.value] (fun _ => 2) (twoBlocks.initialData fun _ => 0)
    (oneRunner ++ [.store 0x104 2, .futexInit 0x100 0x104 0])
    [.call 0 (.osMemoryPoolAlloc 0), .act 0 0, .act 0 0, .act 0 0,
      .call 0 (.store 0x20000104 0xff), .act 0 1,
      .call 0 (.osMemoryPoolFree 0x20000104), .act 0 2, .act 0 2, .act 0 2]
    (fun machine => .free 0x20000104 (.inr .osOK) ∈ machine.calls.map Call.place)
    (by decide)
  exact ⟨machine, freed, conserved_of_guarded (Or.inl (by decide)) reached⟩

def emptyBlocks : RtosMemoryPool where
  value := 0x104
  futex := 0x100
  poolData := 0x20000100
  blockSize := 0
  capacity := 2
  aligned := by decide
  present := by decide
  fits := by decide

theorem emptyBlocks_not_conserved :
    ∃ machine, (poolSystem 1 emptyBlocks fun _ => 0).Guarded
        (Machine.Meets (poolProgram emptyBlocks) emptyBlocks.cells (KeepsToOwn emptyBlocks))
        machine ∧
      ¬∃ free, Conserved emptyBlocks machine.data (machine.kernel.memory emptyBlocks.value)
        (machine.calls.map Call.place) free := by
  obtain ⟨machine, reached, twice⟩ := exists_machine (poolProgram emptyBlocks)
    (Machine.Meets (poolProgram emptyBlocks) emptyBlocks.cells (KeepsToOwn emptyBlocks))
    [emptyBlocks.value] (fun _ => 2) (emptyBlocks.initialData fun _ => 0)
    (oneRunner ++ [.store 0x104 2, .futexInit 0x100 0x104 0])
    [.call 0 (.osMemoryPoolAlloc 0), .act 0 0, .act 0 0, .act 0 0,
      .call 0 (.osMemoryPoolAlloc 0), .act 0 1, .act 0 1]
    (fun machine => allocated 0x20000100 (machine.calls.map Call.place) = 2) (by decide)
  refine ⟨machine, reached, ?_⟩
  rintro ⟨free, conserved⟩
  have once := (conserved.once 0x20000100 (by decide)).2
  rw [twice] at once
  exact absurd once (by decide)

end PicoToolkit
