import PicoToolkit.Cmsis.PoolBlocks
import PicoToolkit.Cmsis.PoolConservation

/-!
Frees that fail: whether a call of `osMemoryPoolFree` that returns an error has had an effect.
-/

namespace PicoToolkit

open Stack Transition Interleaving

abbrev PoolMove : Type := Move Result (Context × PoolCall)

abbrev PoolShared : Type := Shared Word Word PoolData PoolPlace

/-- A pool as `osMemoryPoolNew` leaves it, before any call. -/
def RtosMemoryPool.fresh (pool : RtosMemoryPool) (contents : Word → Word) : PoolShared :=
  ⟨fun _ => pool.capacity, pool.initialData contents, []⟩

abbrev poolCalls (pool : RtosMemoryPool) (contents : Word → Word) : System PoolShared PoolMove :=
  (poolProgram pool).system fun shared => shared = pool.fresh contents

def acts (index : Nat) : PoolMove → Bool
  | .act acting _ => decide (acting = index)
  | .call _ => false

/-- Two states differ for nobody but the owner of a block: the free lists hold the same blocks in the same
order, the semaphore has the same value, and the memory is the same outside of the block. -/
structure SameBut (pool : RtosMemoryPool) (block : Word) (left right : PoolShared) : Prop where
  free : ∀ blocks, Threads left.data.memory 0 left.data.freeList blocks ↔
    Threads right.data.memory 0 right.data.freeList blocks
  value : left.memory pool.value = right.memory pool.value
  memory : ∀ address : Word,
    (address.toNat < block.toNat ∨ block.toNat + pool.blockSize.toNat ≤ address.toNat) →
      left.data.memory address = right.data.memory address

/-- Without the steps of a free that fails the run goes as it did, and ends in the same state but for the
block. -/
def FailsWithoutEffect (pool : RtosMemoryPool) (contents : Word → Word) (moves : List PoolMove) : Prop :=
  ∀ final index block status,
    (poolCalls pool contents).run (fun _ _ => True) (pool.fresh contents) moves = some final →
      final.places[index]? = some (.free block (.inr status)) → status ≠ .osOK →
        ∃ without, (poolCalls pool contents).run (fun _ _ => True) (pool.fresh contents)
            (moves.filter fun move => !acts index move) = some without ∧
          SameBut pool block without final

def HasRoom (pool : RtosMemoryPool) (shared : PoolShared) : PoolMove → Prop
  | .act index _ =>
      match shared.places[index]? with
      | some (.free _ (.inl (.release .check))) => shared.memory pool.value < pool.capacity
      | _ => True
  | .call _ => True

instance (pool : RtosMemoryPool) (shared : PoolShared) (move : PoolMove) :
    Decidable (HasRoom pool shared move) := by
  cases move with
  | call entry => exact inferInstanceAs (Decidable True)
  | act index answer =>
      simp only [HasRoom]
      split
      · exact inferInstance
      · exact inferInstance

def PoolPlace.failing : PoolPlace → Bool
  | .free _ (.inl (.remove _)) => true
  | .free _ (.inr status) => decide (status ≠ .osOK)
  | _ => false

def PoolPlace.removing : PoolPlace → Bool
  | .free _ (.inl (.remove _)) => true
  | _ => false

variable {pool : RtosMemoryPool} {contents : Word → Word} {shared next : PoolShared} {index : Nat}

theorem step_failing {answer : Result} {place : PoolPlace}
    (found : shared.places[index]? = some place) (stays : place.removing = false)
    (room : HasRoom pool shared (.act index answer))
    (moved : (poolProgram pool).step shared (.act index answer) = some next) :
    ∃ after, next.places[index]? = some after ∧ after.failing = false := by
  obtain ⟨from_, op, isFrom, isNext, rfl⟩ := Program.step_act moved
  cases found.symm.trans isFrom
  have inside := (List.getElem?_eq_some_iff.mp found).1
  have reaches {after : PoolPlace} {state : PoolShared}
      (places : state.places = shared.places.set index after) (fine : after.failing = false) :
      ∃ after, state.places[index]? = some after ∧ after.failing = false :=
    ⟨after, by rw [places, List.getElem?_set_self inside], fine⟩
  cases place with
  | alloc timeout place =>
      cases place with
      | inl place =>
          cases isNext
          obtain ⟨inner, places⟩ := Program.perform_map_places shared index answer
            (osMemoryPoolAlloc pool timeout place) (.alloc timeout)
          exact reaches places rfl
      | inr result => cases isNext
  | free block place =>
      cases place with
      | inl place =>
          cases isNext
          cases place with
          | push context =>
              have start := osSemaphoreReleaseStart_pool pool context
              refine reaches rfl ?_
              rw [start]
              rfl
          | release place =>
              cases place with
              | check =>
                  have below : shared.memory pool.value < pool.capacity := by
                    simpa only [HasRoom, found] using room
                  refine reaches rfl ?_
                  have fits : ¬pool.semaphore.maxCount ≤ shared.memory pool.semaphore.value :=
                    BitVec.not_le.mpr below
                  simp only [if_neg fits]
                  rfl
              | add =>
                  refine reaches rfl ?_
                  change PoolPlace.failing (.free block (FreePlace.afterRelease
                    (if shared.memory pool.value = 0 then .inl .wake else .inr .osOK))) = false
                  split
                  · rfl
                  · rfl
              | wake => exact reaches rfl rfl
          | remove status => cases stays
      | inr status => cases isNext
  | store address value =>
      cases isNext
      exact reaches rfl rfl
  | stored => cases isNext

def NoneRemoves (shared : PoolShared) : Prop := ∀ place ∈ shared.places, place.removing = false

theorem removing_of_failing {place : PoolPlace} (fine : place.failing = false) :
    place.removing = false := by
  rcases place with _ | ⟨block, (_ | _ | _) | _⟩ | _ | _
  all_goals first | rfl | cases fine

theorem enter_removing (entry : Context × PoolCall) :
    ((poolProgram pool).enter entry).removing = false := by
  obtain ⟨context, call⟩ := entry
  cases call with
  | osMemoryPoolAlloc timeout => rfl
  | osMemoryPoolFree block =>
      change PoolPlace.removing (.free block (osMemoryPoolFreeStart pool block context)) = false
      rw [osMemoryPoolFreeStart_area, PoolArea.osMemoryPoolFreeStart_eq]
      split
      · rfl
      · rfl
  | store address value => rfl

theorem noneRemoves_step {move : PoolMove} (none : NoneRemoves shared) (room : HasRoom pool shared move)
    (moved : (poolProgram pool).step shared move = some next) : NoneRemoves next := by
  intro place member
  cases move with
  | call entry =>
      obtain rfl := Option.some_inj.mp moved
      rcases List.mem_append.mp member with before | isNew
      · exact none place before
      · rw [List.mem_singleton.mp isNew]
        exact enter_removing entry
  | act acting answer =>
      obtain ⟨from_, op, found, _, isNext⟩ := Program.step_act moved
      have stays := none from_ (List.mem_of_getElem? found)
      obtain ⟨after, reached, fine⟩ := step_failing found stays room moved
      obtain ⟨to_, places⟩ := Program.perform_places shared acting answer op
      have inside := (List.getElem?_eq_some_iff.mp found).1
      rw [isNext, places, List.getElem?_set_self inside] at reached
      rw [isNext, places] at member
      rcases List.mem_or_eq_of_mem_set member with before | rfl
      · exact none place before
      · rw [Option.some_inj.mp reached]
        exact removing_of_failing fine

theorem place_of_run {moves : List PoolMove} {final : PoolShared} {place : PoolPlace}
    (performed : (poolCalls pool contents).run (HasRoom pool) shared moves = some final)
    (quiet : ∀ answer, .act index answer ∉ moves) (found : shared.places[index]? = some place) :
    final.places[index]? = some place := by
  induction moves generalizing shared with
  | nil =>
      obtain rfl : shared = final := by simpa [System.run] using performed
      exact found
  | cons move rest ih =>
      simp only [System.run, Option.ite_none_right_eq_some] at performed
      obtain ⟨next, moved, later⟩ := Option.bind_eq_some_iff.mp performed.2
      refine ih later (fun answer member => quiet answer (List.mem_cons_of_mem _ member)) ?_
      exact Program.place_of_other moved found fun answer same =>
        quiet answer (same ▸ List.mem_cons_self)

theorem quiet_of_failed {moves : List PoolMove} {final : PoolShared} {block : Word} {status : OsStatus}
    (none : NoneRemoves shared)
    (performed : (poolCalls pool contents).run (HasRoom pool) shared moves = some final)
    (failed : final.places[index]? = some (.free block (.inr status))) (error : status ≠ .osOK) :
    ∀ answer, .act index answer ∉ moves := by
  induction moves generalizing shared with
  | nil => exact fun answer => List.not_mem_nil
  | cons move rest ih =>
      simp only [System.run, Option.ite_none_right_eq_some] at performed
      obtain ⟨room, performed⟩ := performed
      obtain ⟨next, moved, later⟩ := Option.bind_eq_some_iff.mp performed
      have quiet := ih (noneRemoves_step none room moved) later
      intro answer member
      rcases List.mem_cons.mp member with rfl | inside
      · -- the place behind the step is not one of a failure, and stays
        obtain ⟨from_, op, found, _⟩ := Program.step_act moved
        obtain ⟨after, reached, fine⟩ :=
          step_failing found (none from_ (List.mem_of_getElem? found)) room moved
        cases failed.symm.trans (place_of_run later quiet reached)
        exact absurd (decide_eq_false_iff_not.mp fine) (not_not.mpr error)
      · exact quiet answer inside

theorem run_of_guarded {moves : List PoolMove} {final : PoolShared}
    (performed : (poolCalls pool contents).run (HasRoom pool) shared moves = some final) :
    (poolCalls pool contents).run (fun _ _ => True) shared moves = some final := by
  induction moves generalizing shared with
  | nil => exact performed
  | cons move rest ih =>
      simp only [System.run, Option.ite_none_right_eq_some] at performed
      obtain ⟨next, moved, later⟩ := Option.bind_eq_some_iff.mp performed.2
      simp only [System.run, if_true]
      exact Option.bind_eq_some_iff.mpr ⟨next, moved, ih later⟩

/-- As long as every check of the semaphore inside of a free finds it below its maximum, a free that fails
has no effect. -/
theorem failsWithoutEffect_of_room {moves : List PoolMove} {last : PoolShared}
    (performed : (poolCalls pool contents).run (HasRoom pool) (pool.fresh contents) moves = some last) :
    FailsWithoutEffect pool contents moves := by
  intro final index block status run failed error
  cases (run_of_guarded performed).symm.trans run
  have quiet := quiet_of_failed (fun _ member => absurd member List.not_mem_nil) performed failed error
  have same : moves.filter (fun move => !acts index move) = moves := by
    refine List.filter_eq_self.mpr fun move member => ?_
    cases move with
    | call entry => rfl
    | act acting answer =>
        have apart : acting ≠ index := by
          rintro rfl
          exact quiet answer member
        simp [acts, apart]
  rw [same]
  exact ⟨last, run, fun _ => Iff.rfl, rfl, fun _ _ => rfl⟩

def twoWideBlocks : RtosMemoryPool where
  value := 0x104
  futex := 0x100
  poolData := 0x20000100
  blockSize := 16
  capacity := 2
  aligned := by decide
  present := twoBlocks.present
  fits := by decide

/-- A block is allocated and freed again, and while the call that frees it is on its way another one is
refused. -/
def refusedRun : List PoolMove :=
  [.call (.thread, .osMemoryPoolAlloc 0), .act 0 (.value 0), .act 0 (.value 0), .act 0 (.value 0),
    .call (.thread, .osMemoryPoolFree 0x20000110), .act 1 (.value 0),
    .call (.handler, .osMemoryPoolFree 0x20000130), .act 1 (.value 0), .act 1 (.value 0)]

theorem failsWithoutEffect_of_room_refused :
    ((poolCalls twoWideBlocks fun _ => 0x20000200).run (HasRoom twoWideBlocks)
        (twoWideBlocks.fresh fun _ => 0x20000200) refusedRun).map Shared.places =
      some [.alloc 0 (.inr 0x20000110), .free 0x20000110 (.inr .osOK),
        .free 0x20000130 (.inr .osErrorParameter)] ∧
    FailsWithoutEffect twoWideBlocks (fun _ => 0x20000200) refusedRun :=
  ⟨by rfl, failsWithoutEffect_of_room (by rfl)⟩

/-- A block that is already free is freed: of the two free blocks one is lost, and the other leads to
itself. -/
theorem free_fails_with_effect :
    ¬FailsWithoutEffect twoWideBlocks (fun _ => 0x20000200)
      [.call (.thread, .osMemoryPoolFree 0x20000100), .act 0 (.value 0), .act 0 (.value 0),
        .act 0 (.value 0)] := by
  intro without
  obtain ⟨erased, run, same⟩ := without _ 0 0x20000100 .osErrorResource (by rfl) (by rfl) (by decide)
  obtain rfl := Option.some_inj.mp run
  have listed : Threads (twoWideBlocks.initialData fun _ => 0x20000200).memory 0
      (twoWideBlocks.initialData fun _ => 0x20000200).freeList [0x20000110, 0x20000100] :=
    ⟨rfl, by decide, rfl, by decide, rfl⟩
  have after := (same.free _).mp listed
  exact absurd after.1 (by decide)

theorem rollback_cycles (data : PoolData) {block : Word} (positive : block ≠ 0) (blocks : List Word) :
    ¬Threads ((data.push block).listRemove block).memory 0
      ((data.push block).listRemove block).freeList blocks := by
  refine not_threads_of_cycle ?_ positive
  have apart : block ≠ block + 4 := by
    intro same
    have offset := congrArg (· - block) same
    simp [BitVec.add_comm block] at offset
  have head : ((data.push block).listRemove block).freeList = block := rfl
  rw [head, PoolData.listRemove]
  dsimp only
  rw [Function.update_of_ne apart, Function.update_self]

end PicoToolkit
