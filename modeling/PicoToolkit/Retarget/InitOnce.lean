import PicoToolkit.Library.Transition
import PicoToolkit.Scheduler.State

/-!
`__retarget_runtime_lock_init_once`, with and without the scheduler: the marker of the lock is 0, 1
while a caller initialises the lock, and `LIBC_LOCK_MARKER` afterwards.
-/

namespace PicoToolkit.Retarget

open Transition

def libcLockMarker : Word := 0x89988998

/-- The function of `retarget-lock.c`, or the one of `scheduler-glue.c` that replaces it. -/
inductive Version where
  | bareMetal
  | scheduler
  deriving DecidableEq

structure RuntimeLock where
  marker : Word := 0
  value : Word := 0
  count : Word := 0
  /-- `scheduler_futex_init` has been called for the futex. -/
  futex : Bool := false
  deriving DecidableEq

inductive InitStore where
  | value
  | count
  | futex
  deriving DecidableEq

def InitStore.perform (lock : RuntimeLock) : InitStore → RuntimeLock
  | .value => { lock with value := 0 }
  | .count => { lock with count := 0 }
  | .futex => { lock with futex := true }

/-- What stands between the claim and the last store of the marker. -/
def Version.stores : Version → List InitStore
  | .bareMetal => [.value, .count]
  | .scheduler => [.value, .count, .futex]

inductive OncePlace where
  | load
  | claim
  | spin
  | relax
  | store (count : Nat)
  | publish
  | wake
  | done
  deriving DecidableEq

def Version.afterStores (version : Version) (count : Nat) : OncePlace :=
  if count < version.stores.length then .store count else .publish

/-- The lock, its callers, and which of them has executed which of the initialising stores. -/
structure OnceState where
  lock : RuntimeLock := {}
  places : List OncePlace := []
  stored : List (Nat × InitStore) := []

/-- A new caller, the next step of a caller, or what a caller that has returned does with the lock. -/
inductive OnceAction where
  | call
  | act (index : Nat)
  | use (index : Nat) (value count : Word)

namespace OnceState

def move (state : OnceState) (lock : RuntimeLock) (index : Nat) (place : OncePlace) : OnceState :=
  { state with lock := lock, places := state.places.set index place }

def advance (version : Version) (state : OnceState) (index : Nat) :
    OncePlace → Option OnceState
  | .load =>
      some (state.move state.lock index (if state.lock.marker = libcLockMarker then .done else .claim))
  | .claim =>
      if state.lock.marker = 0 then
        some (state.move { state.lock with marker := 1 } index (version.afterStores 0))
      else some (state.move state.lock index .spin)
  | .spin =>
      -- the loop goes on while the marker equals the published value
      some (state.move state.lock index (if state.lock.marker = libcLockMarker then .relax else .done))
  | .relax => some (state.move state.lock index .spin)
  | .store count =>
      version.stores[count]?.map fun store =>
        { state.move (store.perform state.lock) index (version.afterStores (count + 1)) with
          stored := state.stored ++ [(index, store)] }
  | .publish => some (state.move { state.lock with marker := libcLockMarker } index .wake)
  | .wake => some (state.move state.lock index .done)
  | .done => none

def step (version : Version) (state : OnceState) : OnceAction → Option OnceState
  | .call => some { state with places := state.places ++ [.load] }
  | .act index => state.places[index]?.bind (state.advance version index)
  | .use index value count =>
      if state.places[index]? = some .done then
        some { state with lock := { state.lock with value := value, count := count } }
      else none

def Begins (state : OnceState) : Prop :=
  state.lock.marker = 0 ∧ state.places = [] ∧ state.stored = []

end OnceState

abbrev onceSystem (version : Version) : System OnceState OnceAction where
  initial := OnceState.Begins
  step := OnceState.step version

/-- Who could not claim the marker reads it when the stores are done and it is not published yet. -/
def ReadsBetween (version : Version) (state : OnceState) : OnceAction → Prop
  | .act index => state.places[index]? = some .spin →
      state.lock.marker ≠ libcLockMarker ∧ state.stored.length = version.stores.length
  | _ => True

/-- One caller at most executes the stores, in their order; who has returned has returned after the last
of them; nobody goes on waiting for a published marker; and no store is left once somebody has
returned. -/
structure InitialisedOnce (version : Version) (state : OnceState) : Prop where
  once : ∃ owner count, state.stored = (version.stores.take count).map (Prod.mk owner)
  complete : .done ∈ state.places → state.stored.length = version.stores.length
  leaves : .relax ∉ state.places
  final : .done ∈ state.places → ∀ count, .store count ∉ state.places

namespace OncePlace

def waits : OncePlace → Bool
  | .load | .claim | .spin => true
  | _ => false

end OncePlace

inductive MarkerPhase where
  | unclaimed
  | claimed (owner count : Nat)
  | published (owner : Nat)

def Consistent (version : Version) (state : OnceState) : MarkerPhase → Prop
  | .unclaimed =>
      state.lock.marker = 0 ∧ state.stored = [] ∧
        ∀ place ∈ state.places, place = .load ∨ place = .claim
  | .claimed owner count =>
      state.lock.marker = 1 ∧ count ≤ version.stores.length ∧
        state.places[owner]? = some (version.afterStores count) ∧
        state.stored = (version.stores.take count).map (Prod.mk owner) ∧
        ∀ other place, other ≠ owner → state.places[other]? = some place →
          place.waits ∨ place = .done ∧ count = version.stores.length
  | .published owner =>
      state.lock.marker = libcLockMarker ∧
        state.stored = version.stores.map (Prod.mk owner) ∧
        ∀ place ∈ state.places, place.waits ∨ place = .wake ∨ place = .done

section

variable {version : Version} {state next : OnceState} {phase : MarkerPhase} {index : Nat}

theorem afterStores_ne (version : Version) (count : Nat) :
    version.afterStores count = .publish ∧ version.stores.length ≤ count ∨
      version.afterStores count = .store count ∧ count < version.stores.length := by
  rw [Version.afterStores]
  split
  · rename_i below
    exact Or.inr ⟨rfl, below⟩
  · rename_i above
    exact Or.inl ⟨rfl, Nat.le_of_not_lt above⟩

theorem initialisedOnce_of_consistent (consistent : Consistent version state phase) :
    InitialisedOnce version state := by
  cases phase with
  | unclaimed =>
      obtain ⟨_, stored, only⟩ := consistent
      refine ⟨⟨0, 0, stored⟩, fun member => ?_, fun member => ?_, fun member => ?_⟩
      · simpa using only _ member
      · simpa using only _ member
      · simpa using only _ member
  | claimed owner count =>
      obtain ⟨_, bound, isOwner, stored, others⟩ := consistent
      have done : OncePlace.done ∈ state.places → count = version.stores.length := by
        intro member
        obtain ⟨other, found⟩ := List.mem_iff_getElem?.mp member
        by_cases same : other = owner
        · subst same
          rw [isOwner] at found
          rcases afterStores_ne version count with ⟨is, _⟩ | ⟨is, _⟩
          · simp [is] at found
          · simp [is] at found
        · rcases others other _ same found with waits | ⟨_, full⟩
          · cases waits
          · exact full
      refine ⟨⟨owner, count, stored⟩, fun member => ?_, fun member => ?_, fun member place store => ?_⟩
      · rw [stored, done member, List.take_length, List.length_map]
      · obtain ⟨other, found⟩ := List.mem_iff_getElem?.mp member
        by_cases same : other = owner
        · subst same
          rw [isOwner] at found
          rcases afterStores_ne version count with ⟨is, _⟩ | ⟨is, _⟩
          · simp [is] at found
          · simp [is] at found
        · rcases others other _ same found with waits | ⟨isDone, _⟩
          · cases waits
          · cases isDone
      · have full := done member
        obtain ⟨other, found⟩ := List.mem_iff_getElem?.mp store
        by_cases same : other = owner
        · subst same
          rw [isOwner] at found
          rcases afterStores_ne version count with ⟨is, _⟩ | ⟨_, below⟩
          · simp [is] at found
          · omega
        · rcases others other _ same found with waits | ⟨isDone, _⟩
          · cases waits
          · cases isDone
  | published owner =>
      obtain ⟨_, stored, only⟩ := consistent
      refine ⟨⟨owner, version.stores.length, by rw [stored, List.take_length]⟩, fun _ => ?_,
        fun member => ?_, fun _ count member => ?_⟩
      · rw [stored, List.length_map]
      · simpa [OncePlace.waits] using only _ member
      · simpa [OncePlace.waits] using only _ member

theorem consistent_call (consistent : Consistent version state phase) :
    Consistent version { state with places := state.places ++ [.load] } phase := by
  cases phase with
  | unclaimed =>
      obtain ⟨marker, stored, only⟩ := consistent
      refine ⟨marker, stored, fun place member => ?_⟩
      rcases List.mem_append.mp member with old | new
      · exact only place old
      · exact Or.inl (List.mem_singleton.mp new)
  | claimed owner count =>
      obtain ⟨marker, bound, isOwner, stored, others⟩ := consistent
      have inside := (List.getElem?_eq_some_iff.mp isOwner).1
      refine ⟨marker, bound, (List.getElem?_append_left inside).trans isOwner, stored, ?_⟩
      intro other place different found
      by_cases old : other < state.places.length
      · rw [List.getElem?_append_left old] at found
        exact others other place different found
      · rw [List.getElem?_append_right (by omega)] at found
        obtain rfl := List.mem_singleton.mp (List.mem_of_getElem? found)
        exact Or.inl rfl
  | published owner =>
      obtain ⟨marker, stored, only⟩ := consistent
      refine ⟨marker, stored, fun place member => ?_⟩
      rcases List.mem_append.mp member with old | new
      · exact only place old
      · obtain rfl := List.mem_singleton.mp new
        exact Or.inl rfl

theorem consistent_unclaimed (consistent : Consistent version state .unclaimed) {place : OncePlace}
    (found : state.places[index]? = some place)
    (moved : state.advance version index place = some next) :
    ∃ phase, Consistent version next phase := by
  obtain ⟨marker, stored, only⟩ := consistent
  rcases only place (List.mem_of_getElem? found) with rfl | rfl
  · obtain rfl := Option.some_inj.mp moved
    refine ⟨.unclaimed, marker, stored, fun other member => ?_⟩
    rw [if_neg (by rw [marker]; decide)] at member
    rcases List.mem_or_eq_of_mem_set member with old | rfl
    · exact only other old
    · exact Or.inr rfl
  · rw [OnceState.advance, if_pos marker] at moved
    obtain rfl := Option.some_inj.mp moved
    have inside := (List.getElem?_eq_some_iff.mp found).1
    refine ⟨.claimed index 0, rfl, Nat.zero_le _, List.getElem?_set_self inside, stored, ?_⟩
    intro other place different foundOther
    rw [OnceState.move, List.getElem?_set_ne (Ne.symm different)] at foundOther
    rcases only place (List.mem_of_getElem? foundOther) with rfl | rfl
    · exact Or.inl rfl
    · exact Or.inl rfl

theorem consistent_owner {count : Nat} (consistent : Consistent version state (.claimed index count))
    (moved : state.advance version index (version.afterStores count) = some next) :
    ∃ phase, Consistent version next phase := by
  obtain ⟨marker, bound, isOwner, stored, others⟩ := consistent
  have inside := (List.getElem?_eq_some_iff.mp isOwner).1
  rcases afterStores_ne version count with ⟨isPublish, full⟩ | ⟨isStore, below⟩
  · rw [isPublish] at moved
    obtain rfl := Option.some_inj.mp moved
    refine ⟨.published index, rfl, ?_, fun place member => ?_⟩
    · rw [OnceState.move, stored, List.take_of_length_le full]
    · obtain ⟨other, found⟩ := List.mem_iff_getElem?.mp member
      by_cases same : other = index
      · subst same
        rw [OnceState.move, List.getElem?_set_self inside] at found
        exact Or.inr (Or.inl (Option.some_inj.mp found).symm)
      · rw [OnceState.move, List.getElem?_set_ne (Ne.symm same)] at found
        rcases others other place same found with waits | ⟨isDone, _⟩
        · exact Or.inl waits
        · exact Or.inr (Or.inr isDone)
  · rw [isStore, OnceState.advance, List.getElem?_eq_getElem below] at moved
    obtain rfl := Option.some_inj.mp moved
    refine ⟨.claimed index (count + 1), ?_, below, List.getElem?_set_self inside, ?_, ?_⟩
    · cases version.stores[count] with
      | _ => exact marker
    · rw [List.take_succ_eq_append_getElem below, List.map_append, stored]
      rfl
    · intro other place different found
      change (state.places.set index _)[other]? = some place at found
      rw [List.getElem?_set_ne (Ne.symm different)] at found
      rcases others other place different found with waits | ⟨_, full⟩
      · exact Or.inl waits
      · omega

theorem consistent_other {owner count : Nat} {place : OncePlace}
    (consistent : Consistent version state (.claimed owner count)) (different : index ≠ owner)
    (found : state.places[index]? = some place)
    (between : ReadsBetween version state (.act index))
    (moved : state.advance version index place = some next) :
    Consistent version next (.claimed owner count) := by
  obtain ⟨marker, bound, isOwner, stored, others⟩ := consistent
  have unpublished : state.lock.marker ≠ libcLockMarker := by
    rw [marker]
    decide
  have claimed : state.lock.marker ≠ 0 := by
    rw [marker]
    decide
  -- a caller that moves to another place of those that wait, or returns after the last store
  have moves : ∀ after : OncePlace, after.waits ∨ after = .done ∧ count = version.stores.length →
      Consistent version (state.move state.lock index after) (.claimed owner count) := by
    intro after allowed
    refine ⟨marker, bound, ?_, stored, fun other place notOwner foundOther => ?_⟩
    · rw [OnceState.move, List.getElem?_set_ne different]
      exact isOwner
    · rw [OnceState.move] at foundOther
      by_cases same : other = index
      · subst same
        rw [List.getElem?_set_self (List.getElem?_eq_some_iff.mp found).1] at foundOther
        obtain rfl := Option.some_inj.mp foundOther
        exact allowed
      · rw [List.getElem?_set_ne (Ne.symm same)] at foundOther
        exact others other place notOwner foundOther
  rcases others index place different found with waits | ⟨rfl, _⟩
  · cases place with
    | load =>
        rw [OnceState.advance, if_neg unpublished] at moved
        obtain rfl := Option.some_inj.mp moved
        exact moves .claim (Or.inl rfl)
    | claim =>
        rw [OnceState.advance, if_neg claimed] at moved
        obtain rfl := Option.some_inj.mp moved
        exact moves .spin (Or.inl rfl)
    | spin =>
        rw [OnceState.advance, if_neg unpublished] at moved
        obtain rfl := Option.some_inj.mp moved
        have full := (between found).2
        rw [stored, List.length_map, List.length_take] at full
        exact moves .done (Or.inr ⟨rfl, by omega⟩)
    | _ => cases waits
  · cases moved

theorem consistent_published {owner : Nat} {place : OncePlace}
    (consistent : Consistent version state (.published owner))
    (found : state.places[index]? = some place)
    (between : ReadsBetween version state (.act index))
    (moved : state.advance version index place = some next) :
    Consistent version next (.published owner) := by
  obtain ⟨marker, stored, only⟩ := consistent
  have claimed : state.lock.marker ≠ 0 := by
    rw [marker]
    decide
  have moves : ∀ after : OncePlace, after.waits ∨ after = .wake ∨ after = .done →
      Consistent version (state.move state.lock index after) (.published owner) := by
    intro after allowed
    refine ⟨marker, stored, fun other member => ?_⟩
    rcases List.mem_or_eq_of_mem_set member with old | rfl
    · exact only other old
    · exact allowed
  rcases only place (List.mem_of_getElem? found) with waits | rfl | rfl
  · cases place with
    | load =>
        rw [OnceState.advance, if_pos marker] at moved
        obtain rfl := Option.some_inj.mp moved
        exact moves .done (Or.inr (Or.inr rfl))
    | claim =>
        rw [OnceState.advance, if_neg claimed] at moved
        obtain rfl := Option.some_inj.mp moved
        exact moves .spin (Or.inl rfl)
    | spin => exact ((between found).1 marker).elim
    | _ => cases waits
  · obtain rfl := Option.some_inj.mp moved
    exact moves .done (Or.inr (Or.inr rfl))
  · cases moved

theorem consistent_step {action : OnceAction} (consistent : Consistent version state phase)
    (between : ReadsBetween version state action) (moved : state.step version action = some next) :
    ∃ phase, Consistent version next phase := by
  cases action with
  | call =>
      obtain rfl := Option.some_inj.mp moved
      exact ⟨phase, consistent_call consistent⟩
  | act index =>
      obtain ⟨place, found, moved⟩ := Option.bind_eq_some_iff.mp moved
      cases phase with
      | unclaimed => exact consistent_unclaimed consistent found moved
      | claimed owner count =>
          by_cases same : index = owner
          · subst same
            rw [consistent.2.2.1] at found
            obtain rfl := Option.some_inj.mp found
            exact consistent_owner consistent moved
          · exact ⟨_, consistent_other consistent same found between moved⟩
      | published owner => exact ⟨_, consistent_published consistent found between moved⟩
  | use index value count =>
      rw [OnceState.step] at moved
      split at moved
      · obtain rfl := Option.some_inj.mp moved
        refine ⟨phase, ?_⟩
        cases phase with
        | _ => exact consistent
      · cases moved

/-- If nobody who waits reads the marker before the stores are done or after it is published, the lock
is initialised once and before any caller goes on. -/
theorem initialised_once (reached : (onceSystem version).Guarded (ReadsBetween version) state) :
    InitialisedOnce version state := by
  have consistent : ∃ phase, Consistent version state phase := by
    refine reached.invariant (motive := fun state => ∃ phase, Consistent version state phase) ?_ ?_
    · rintro state ⟨marker, places, stored⟩
      refine ⟨.unclaimed, marker, stored, fun place member => ?_⟩
      rw [places] at member
      cases member
    · rintro state action next ⟨phase, consistent⟩ between moved
      exact consistent_step consistent between moved
  obtain ⟨phase, consistent⟩ := consistent
  exact initialisedOnce_of_consistent consistent

instance (version : Version) (state : OnceState) (action : OnceAction) :
    Decidable (ReadsBetween version state action) :=
  match action with
  | .act index => inferInstanceAs (Decidable (state.places[index]? = some .spin →
      state.lock.marker ≠ libcLockMarker ∧ state.stored.length = version.stores.length))
  | .call | .use _ _ _ => isTrue trivial

theorem initialised_once_run : ∃ state, InitialisedOnce .scheduler state ∧
    state.places = [.done, .done] := by
  obtain ⟨state, reached, check⟩ := @System.exists_of_run _ _ (onceSystem .scheduler)
    (ReadsBetween .scheduler) _ {} ⟨rfl, rfl, rfl⟩
    (.call :: .call :: [0, 0, 1, 1, 0, 0, 0, 1, 0, 0].map .act)
    (fun state => state.places = [.done, .done]) (fun _ => inferInstanceAs (Decidable (_ = _)))
    (by decide)
  exact ⟨state, initialised_once reached, check⟩

theorem exists_early_return (version : Version) :
    ∃ state, (onceSystem version).Reachable state ∧ .done ∈ state.places ∧ state.stored = [] := by
  refine @System.exists_of_run _ _ (onceSystem version) (fun _ _ => True) _ {} ⟨rfl, rfl, rfl⟩
    (.call :: .call :: [0, 1, 0, 1, 1].map .act)
    (fun state => .done ∈ state.places ∧ state.stored = [])
    (fun _ => inferInstanceAs (Decidable (_ ∧ _))) ?_
  cases version with
  | _ => decide

theorem exists_late_wait (version : Version) :
    ∃ state, (onceSystem version).Reachable state ∧ .relax ∈ state.places ∧
      state.lock.marker = libcLockMarker := by
  refine @System.exists_of_run _ _ (onceSystem version) (fun _ _ => True) _ {} ⟨rfl, rfl, rfl⟩
    (List.flatten [[.call, .call, .act 1], (List.replicate (version.stores.length + 3) 0).map .act,
      [.act 1, .act 1]])
    (fun state => .relax ∈ state.places ∧ state.lock.marker = libcLockMarker)
    (fun _ => inferInstanceAs (Decidable (_ ∧ _))) ?_
  cases version with
  | _ => decide

theorem not_initialised_once :
    (¬ ∀ state, (onceSystem .bareMetal).Reachable state → InitialisedOnce .bareMetal state) ∧
      ¬ ∀ state, (onceSystem .scheduler).Reachable state → InitialisedOnce .scheduler state := by
  constructor
  · intro always
    obtain ⟨state, reached, done, stored⟩ := exists_early_return .bareMetal
    have complete := (always state reached).complete done
    rw [stored] at complete
    cases complete
  · intro always
    obtain ⟨state, reached, relax, _⟩ := exists_late_wait .scheduler
    exact (always state reached).leaves relax

end

end PicoToolkit.Retarget
