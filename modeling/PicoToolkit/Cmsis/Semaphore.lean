import PicoToolkit.Threads.Abstraction

/-!
Counting semaphores: the compare-exchange loop of `osSemaphoreAcquire`, and `osSemaphoreRelease`,
which tests the bound before it adds.
-/

namespace PicoToolkit

open Transition Interleaving

def rtosSemaphoreMarker : Word := 0x42044024

structure RtosSemaphore where
  marker : Word := rtosSemaphoreMarker
  maxCount : Word
  value : Word
  futex : Word

inductive AcquirePlace where
  | exchange (expected : { expected : Word // expected ≠ 0 })
  | wait
  deriving DecidableEq

inductive ReleasePlace where
  | check
  | add
  | wake
  deriving DecidableEq

variable {Data Place : Type}

def osSemaphoreAcquireStart (semaphore : RtosSemaphore) (timeout : Word) (context : Context) :
    AcquirePlace ⊕ OsStatus :=
  osChecked (osKernelContextIsValid true timeout context) <|
    osChecked (osIsResourceValid semaphore.marker rtosSemaphoreMarker) <|
      .inl (.exchange ⟨1, by decide⟩)

def osSemaphoreAcquire (semaphore : RtosSemaphore) (timeout : Word) :
    AcquirePlace → ThreadOp Data (AcquirePlace ⊕ OsStatus)
  | .exchange expected => .word semaphore.value fun value =>
      if value = expected then (expected - 1, .inr .osOK)
      else if empty : value = 0 then
        (value, if timeout = 0 then .inr .osErrorResource else .inl .wait)
      else (value, .inl (.exchange ⟨value, empty⟩))
  | .wait => .service (.wait semaphore.futex 0 timeout) fun status =>
      if status.negative then
        if status = .error .etimedout ∨ status = .error .ecanceled then .inr .osErrorTimeout
        else .inr .osError
      else .inl (.exchange ⟨1, by decide⟩)

def osSemaphoreReleaseStart (semaphore : RtosSemaphore) (context : Context) :
    ReleasePlace ⊕ OsStatus :=
  osChecked (osKernelContextIsValid true 0 context) <|
    osChecked (osIsResourceValid semaphore.marker rtosSemaphoreMarker) <| .inl .check

def osSemaphoreRelease (semaphore : RtosSemaphore) :
    ReleasePlace → ThreadOp Data (ReleasePlace ⊕ OsStatus)
  | .check => .word semaphore.value fun value =>
      (value, if semaphore.maxCount ≤ value then .inr .osErrorResource else .inl .add)
  | .add => .word semaphore.value fun value =>
      (value + 1, if value = 0 then .inl .wake else .inr .osOK)
  | .wake => .service (.wake semaphore.futex false) fun _ => .inr .osOK

def decremented : AcquirePlace ⊕ OsStatus → Bool
  | .inr .osOK => true
  | _ => false

def incremented : ReleasePlace ⊕ OsStatus → Bool
  | .inl .wake | .inr .osOK => true
  | _ => false

theorem osSemaphoreAcquireStart_cases (semaphore : RtosSemaphore) (timeout : Word)
    (context : Context) :
    (∃ place, osSemaphoreAcquireStart semaphore timeout context = .inl place) ∨
      ∃ error, error ≠ .osOK ∧ osSemaphoreAcquireStart semaphore timeout context = .inr error := by
  rw [osSemaphoreAcquireStart]
  rcases osChecked_cases (osKernelContextIsValid true timeout context)
    (osChecked (osIsResourceValid semaphore.marker rtosSemaphoreMarker) _) with next | failed
  · rw [next]
    rcases osChecked_cases (osIsResourceValid semaphore.marker rtosSemaphoreMarker) _ with next | failed
    · exact Or.inl ⟨_, next⟩
    · exact Or.inr failed
  · exact Or.inr failed

theorem osSemaphoreReleaseStart_cases (semaphore : RtosSemaphore) (context : Context) :
    osSemaphoreReleaseStart semaphore context = .inl .check ∨
      ∃ error, error ≠ .osOK ∧ osSemaphoreReleaseStart semaphore context = .inr error := by
  rw [osSemaphoreReleaseStart]
  rcases osChecked_cases (osKernelContextIsValid true 0 context)
    (osChecked (osIsResourceValid semaphore.marker rtosSemaphoreMarker) _) with next | failed
  · rw [next]
    exact osChecked_cases _ _
  · exact Or.inr failed

theorem decremented_inl (place : AcquirePlace) : decremented (.inl place) = false := rfl

theorem toNat_pred {word : Word} (positive : word ≠ 0) : (word - 1).toNat = word.toNat - 1 := by
  bv_omega

theorem toNat_succ {word bound : Word} (below : word < bound) :
    (word + 1).toNat = word.toNat + 1 := by
  bv_omega

section Steps

variable {semaphore : RtosSemaphore} {state : Shared Word Word Data Place} {index : Nat}
  {answer : Result}

theorem perform_osSemaphoreAcquire {timeout : Word} (place : AcquirePlace)
    (outer : AcquirePlace ⊕ OsStatus → Place) :
    ∃ result memory, Program.perform state index answer
        ((osSemaphoreAcquire semaphore timeout place).map outer) =
          ⟨memory, state.data, state.places.set index (outer result)⟩ ∧
      ((memory semaphore.value).toNat : Int) =
        (state.memory semaphore.value).toNat - (decremented result).toNat ∧
      ∀ other, other ≠ semaphore.value → memory other = state.memory other := by
  cases place with
  | exchange expected =>
      by_cases found : state.memory semaphore.value = expected
      · refine ⟨.inr .osOK, Function.update state.memory semaphore.value (expected - 1), ?_, ?_, ?_⟩
        · simp only [osSemaphoreAcquire, Op.map, Program.perform, if_pos found]
        · have positive : (expected : Word).toNat ≠ 0 := fun zero =>
            expected.property (BitVec.eq_of_toNat_eq zero)
          rw [Function.update_self, found, toNat_pred expected.property]
          simp only [decremented, Bool.toNat_true]
          omega
        · exact fun other apart => Function.update_of_ne apart _ _
      · by_cases empty : state.memory semaphore.value = 0
        · refine ⟨if timeout = 0 then .inr .osErrorResource else .inl .wait, state.memory, ?_, ?_, ?_⟩
          · simp only [osSemaphoreAcquire, Op.map, Program.perform, if_neg found, dif_pos empty,
              Function.update_eq_self]
          · split
            · simp [decremented]
            · simp [decremented]
          · exact fun _ _ => rfl
        · refine ⟨.inl (.exchange ⟨_, empty⟩), state.memory, ?_, ?_, fun _ _ => rfl⟩
          · simp only [osSemaphoreAcquire, Op.map, Program.perform, if_neg found, dif_neg empty,
              Function.update_eq_self]
          · simp [decremented]
  | wait =>
      refine ⟨_, state.memory, rfl, ?_, fun _ _ => rfl⟩
      simp only
      split
      · split
        · simp [decremented]
        · simp [decremented]
      · simp [decremented]

theorem perform_osSemaphoreRelease (place : ReleasePlace) (outer : ReleasePlace ⊕ OsStatus → Place)
    (below : place = .add → state.memory semaphore.value < semaphore.maxCount) :
    ∃ result memory, Program.perform state index answer
        ((osSemaphoreRelease semaphore place).map outer) =
          ⟨memory, state.data, state.places.set index (outer result)⟩ ∧
      ((memory semaphore.value).toNat : Int) = (state.memory semaphore.value).toNat +
        (incremented result).toNat - (incremented (.inl place)).toNat ∧
      (∀ other, other ≠ semaphore.value → memory other = state.memory other) ∧
      (state.memory semaphore.value ≤ semaphore.maxCount →
        memory semaphore.value ≤ semaphore.maxCount) ∧
      ((place ≠ .wake → state.memory semaphore.value < semaphore.maxCount) →
        ∀ error, result = .inr error → error = .osOK) := by
  cases place with
  | check =>
      refine ⟨if semaphore.maxCount ≤ state.memory semaphore.value then .inr .osErrorResource
        else .inl .add, state.memory, ?_, ?_, fun _ _ => rfl, id, ?_⟩
      · simp only [osSemaphoreRelease, Op.map, Program.perform, Function.update_eq_self]
      · split
        · simp [incremented]
        · simp [incremented]
      · intro fits error isError
        rw [if_neg (BitVec.not_le.mpr (fits (by decide)))] at isError
        cases isError
  | add =>
      refine ⟨if state.memory semaphore.value = 0 then .inl .wake else .inr .osOK,
        Function.update state.memory semaphore.value (state.memory semaphore.value + 1), rfl,
        ?_, ?_, ?_, ?_⟩
      · rw [Function.update_self, toNat_succ (below rfl)]
        split
        · simp [incremented]
        · simp [incremented]
      · exact fun other apart => Function.update_of_ne apart _ _
      · intro _
        have fits := below rfl
        rw [Function.update_self]
        bv_omega
      · intro _ error isError
        split at isError
        · cases isError
        · exact (Sum.inr.inj isError).symm
  | wake =>
      refine ⟨.inr .osOK, state.memory, rfl, ?_, fun _ _ => rfl, id, ?_⟩
      · simp [incremented]
      · exact fun _ error isError => (Sum.inr.inj isError).symm

end Steps

inductive SemaphoreCall where
  | osSemaphoreAcquire (timeout : Word)
  | osSemaphoreRelease

inductive SemaphorePlace where
  | acquire (timeout : Word) (place : AcquirePlace ⊕ OsStatus)
  | release (place : ReleasePlace ⊕ OsStatus)
  deriving DecidableEq

def semaphoreProgram (semaphore : RtosSemaphore) :
    ThreadProgram Unit SemaphorePlace SemaphoreCall where
  enter
    | (context, .osSemaphoreAcquire timeout) =>
        .acquire timeout (osSemaphoreAcquireStart semaphore timeout context)
    | (context, .osSemaphoreRelease) => .release (osSemaphoreReleaseStart semaphore context)
  op
    | .acquire timeout (.inl place) =>
        some ((osSemaphoreAcquire semaphore timeout place).map (.acquire timeout))
    | .release (.inl place) => some ((osSemaphoreRelease semaphore place).map .release)
    | _ => none

def RtosSemaphore.cells (semaphore : RtosSemaphore) (address : Word) : Bool :=
  decide (address ∈ [semaphore.value])

def SemaphorePlace.decremented : SemaphorePlace → Bool
  | .acquire _ place => PicoToolkit.decremented place
  | .release _ => false

def SemaphorePlace.incremented : SemaphorePlace → Bool
  | .acquire _ _ => false
  | .release place => PicoToolkit.incremented place

abbrev semaphoreSystem (cores : Nat) [NeZero cores] (semaphore : RtosSemaphore)
    (initialCount : Word) :
    System (Machine cores Unit SemaphorePlace) (Label cores SemaphoreCall) :=
  machineSystem (semaphoreProgram semaphore) semaphore.cells (fun _ => initialCount) ()

def AddsBelowMax (semaphore : RtosSemaphore) (shared : Shared Word Word Unit SemaphorePlace) :
    Move Result (Context × SemaphoreCall) → Prop
  | .act index _ => shared.places[index]? = some (.release (.inl .add)) →
      shared.memory semaphore.value < semaphore.maxCount
  | .call _ => True

instance (semaphore : RtosSemaphore) (shared : Shared Word Word Unit SemaphorePlace)
    (move : Move Result (Context × SemaphoreCall)) :
    Decidable (AddsBelowMax semaphore shared move) := by
  cases move with
  | act index answer => exact inferInstanceAs (Decidable (_ → _))
  | call entry => exact inferInstanceAs (Decidable True)

def SemaphorePlace.tokens (place : SemaphorePlace) : Int :=
  place.incremented.toNat - place.decremented.toNat

theorem tokens_enter (semaphore : RtosSemaphore) (entry : Context × SemaphoreCall) :
    ((semaphoreProgram semaphore).enter entry).tokens = 0 := by
  obtain ⟨context, call⟩ := entry
  cases call with
  | osSemaphoreAcquire timeout =>
      simp only [semaphoreProgram]
      rcases osSemaphoreAcquireStart_cases semaphore timeout context with
        ⟨place, start⟩ | ⟨error, fails, start⟩
      · rw [start]
        rfl
      · rw [start]
        cases error with
        | osOK => exact absurd rfl fails
        | _ => rfl
  | osSemaphoreRelease =>
      simp only [semaphoreProgram]
      rcases osSemaphoreReleaseStart_cases semaphore context with start | ⟨error, fails, start⟩
      · rw [start]
        rfl
      · rw [start]
        cases error with
        | osOK => exact absurd rfl fails
        | _ => rfl

structure Counted (semaphore : RtosSemaphore) (initialCount value : Word)
    (places : List SemaphorePlace) : Prop where
  bounded : value ≤ semaphore.maxCount
  counts : (value.toNat : Int) = initialCount.toNat + total SemaphorePlace.tokens places

theorem Counted.step {semaphore : RtosSemaphore} {initialCount : Word}
    {shared next : Shared Word Word Unit SemaphorePlace}
    {move : Move Result (Context × SemaphoreCall)}
    (counted : Counted semaphore initialCount (shared.memory semaphore.value) shared.places)
    (below : AddsBelowMax semaphore shared move)
    (moved : (semaphoreProgram semaphore).step shared move = some next) :
    Counted semaphore initialCount (next.memory semaphore.value) next.places := by
  obtain ⟨bounded, counts⟩ := counted
  cases move with
  | call entry =>
      obtain rfl := Option.some_inj.mp moved
      refine ⟨bounded, ?_⟩
      rw [total_append, total_cons, total_nil, tokens_enter, counts]
      omega
  | act index answer =>
      obtain ⟨place, op, found, isNext, rfl⟩ := Program.step_act moved
      cases place with
      | acquire timeout place =>
          cases place with
          | inr status => cases isNext
          | inl place =>
              obtain rfl := Option.some_inj.mp isNext
              obtain ⟨result, memory, performs, value, _⟩ := @perform_osSemaphoreAcquire _ _ semaphore
                shared index answer timeout place (.acquire timeout)
              rw [performs]
              constructor
              · rw [BitVec.le_def] at bounded ⊢
                simp only
                omega
              · rw [total_set found]
                simp only [SemaphorePlace.tokens, SemaphorePlace.incremented,
                  SemaphorePlace.decremented, decremented_inl, Bool.toNat_false]
                omega
      | release place =>
          cases place with
          | inr status => cases isNext
          | inl place =>
              obtain rfl := Option.some_inj.mp isNext
              obtain ⟨result, memory, performs, value, _, stays, _⟩ :=
                @perform_osSemaphoreRelease _ _ semaphore shared index answer place .release (by
                  rintro rfl
                  exact below found)
              rw [performs]
              refine ⟨stays bounded, ?_⟩
              rw [total_set found]
              simp only [SemaphorePlace.tokens, SemaphorePlace.incremented,
                SemaphorePlace.decremented, Bool.toNat_false]
              omega

theorem confined_semaphoreProgram (semaphore : RtosSemaphore) :
    Confined semaphore.cells (semaphoreProgram semaphore) := by
  constructor
  · intro place address act isNext
    suffices same : address = semaphore.value by simp [RtosSemaphore.cells, same]
    rcases place with ⟨timeout, (_ | _) | _⟩ | (_ | _ | _) | _
    all_goals
      cases isNext
      try rfl
  · intro place futex value flags resume isNext
    rcases place with ⟨timeout, (_ | _) | _⟩ | (_ | _ | _) | _
    all_goals cases isNext

/-- As long as no addition finds the value at its maximum, the value stays between zero and the
maximum, and is what the additions and subtractions executed so far make it. -/
theorem counted_of_guarded {cores : Nat} [NeZero cores] {semaphore : RtosSemaphore}
    {initialCount : Word} (valid : initialCount ≤ semaphore.maxCount)
    {machine : Machine cores Unit SemaphorePlace}
    (reached : (semaphoreSystem cores semaphore initialCount).Guarded
      (Machine.Meets (semaphoreProgram semaphore) semaphore.cells (AddsBelowMax semaphore)) machine) :
    machine.kernel.memory semaphore.value ≤ semaphore.maxCount ∧
      (machine.kernel.memory semaphore.value).toNat +
          (machine.calls.map Call.place).countP SemaphorePlace.decremented =
        initialCount.toNat + (machine.calls.map Call.place).countP SemaphorePlace.incremented := by
  have isCell : semaphore.cells semaphore.value := by simp [RtosSemaphore.cells]
  have counted : Counted semaphore initialCount
      ((machine.shared semaphore.cells).memory semaphore.value)
      (machine.shared semaphore.cells).places := by
    refine invariant_of_machine
      (fun shared => Counted semaphore initialCount (shared.memory semaphore.value) shared.places)
      (confined_semaphoreProgram semaphore) ?_ ?_ reached
    · constructor
      · simpa [isCell] using valid
      · simp [isCell]
    · exact fun shared move next counted below moved => counted.step below moved
  obtain ⟨bounded, counts⟩ := counted
  rw [Machine.memory_shared isCell] at bounded counts
  have balance := @total_countP _ (machine.calls.map Call.place) SemaphorePlace.incremented
    SemaphorePlace.decremented
  have same : total SemaphorePlace.tokens (machine.shared semaphore.cells).places = _ := balance
  rw [same] at counts
  refine ⟨bounded, ?_⟩
  omega

def oneToken : RtosSemaphore := { maxCount := 1, value := 0x104, futex := 0x100 }

/-- A handler releases the token, a second release is refused, and the thread acquires the token. -/
theorem counted_of_guarded_acquired :
    ∃ machine : Machine 1 Unit SemaphorePlace,
      machine.calls.map Call.place =
        [.release (.inr .osOK), .release (.inr .osErrorResource), .acquire 0 (.inr .osOK)] ∧
        (machine.kernel.memory oneToken.value).toNat + 1 = 0 + 1 := by
  obtain ⟨machine, reached, places⟩ := exists_machine (semaphoreProgram oneToken)
    (Machine.Meets (semaphoreProgram oneToken) oneToken.cells (AddsBelowMax oneToken))
    [oneToken.value] (fun _ => 0) () (oneRunner ++ [.futexInit 0x100 0x104 0])
    [.interrupt 0 .osSemaphoreRelease, .act 0 0, .act 0 0, .act 0 0,
      .call 0 .osSemaphoreRelease, .act 0 1, .call 0 (.osSemaphoreAcquire 0), .act 0 2]
    (fun machine => machine.calls.map Call.place =
      [.release (.inr .osOK), .release (.inr .osErrorResource), .acquire 0 (.inr .osOK)])
    (by decide)
  obtain ⟨_, counts⟩ := counted_of_guarded (by decide) reached
  rw [places] at counts
  exact ⟨machine, places, counts⟩

theorem releases_exceed_maximum :
    ∃ machine, (semaphoreSystem 1 oneToken 0).Reachable machine ∧
      ¬machine.kernel.memory oneToken.value ≤ oneToken.maxCount := by
  exact exists_machine (semaphoreProgram oneToken) (fun _ _ => True) [oneToken.value] (fun _ => 0)
    () (oneRunner ++ [.futexInit 0x100 0x104 0])
    [.call 0 .osSemaphoreRelease, .act 0 0, .interrupt 0 .osSemaphoreRelease, .act 0 1, .act 0 1,
      .act 0 1, .act 0 0]
    (fun machine => ¬machine.kernel.memory oneToken.value ≤ oneToken.maxCount) (by decide)

end PicoToolkit
