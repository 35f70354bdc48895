import PicoToolkit.Cmsis.EventFlags

/-!
Who consumes the flags of an event: what a wait that clears its flags returns, and how many of them a
set lets through.
-/

namespace PicoToolkit

open Transition Interleaving

def osFlagsValid (value : Word) : Bool := decide (value &&& osFlagsError = 0)

def FlagsWish.needs (wish : FlagsWish) (bit : Nat) : Bool :=
  wish.flags.getLsbD bit && (wish.waitsAll || decide (wish.flags = BitVec.twoPow 32 bit))

namespace EventFlagsPlace

/-- If the call has found its condition satisfied and will clear the flags, the flags satisfy it. -/
def passes (flags : Word) : EventFlagsPlace → Bool
  | .wait wish _ (.inl (.leave .consume)) | .wait wish _ (.inl .consume) =>
      !wish.clears || wish.satisfied flags
  | _ => true

def mask : EventFlagsPlace → Word
  | .clear flags (.inl ()) => ~~~flags
  | .wait wish _ (.inl .consume) => wish.clear
  | _ => 0xffffffff

def consumed : EventFlagsPlace → Option (FlagsWish × Word)
  | .wait wish _ (.inr (some value)) =>
      if wish.clears ∧ osFlagsValid value then some (wish, value) else none
  | _ => none

def took (bit : Nat) (place : EventFlagsPlace) : Bool :=
  place.consumed.any fun (wish, value) => wish.flags.getLsbD bit && value.getLsbD bit

def succeedsFor (bit : Nat) (place : EventFlagsPlace) : Bool :=
  place.consumed.any fun (wish, _) => wish.needs bit

def turnsOn (bit : Nat) : EventFlagsPlace → Bool
  | .set _ _ (.inl .fetchOr) => false
  | .set _ turnedOn _ => turnedOn.getLsbD bit
  | _ => false

end EventFlagsPlace

/-- No `atomic_fetch_and` takes a flag away on which another call depends that has found its condition
satisfied and has not yet cleared its flags. -/
def KeepsPassed (eventflags : RtosEventflags) (shared : Shared Word Word Unit EventFlagsPlace) :
    Move Result (Context × EventFlagsCall) → Prop
  | .act index _ => ∀ place ∈ shared.places[index]?, ∀ other ∈ shared.places.eraseIdx index,
      other.passes (shared.memory eventflags.flags &&& place.mask)
  | .call _ => True

instance (eventflags : RtosEventflags) (shared : Shared Word Word Unit EventFlagsPlace)
    (move : Move Result (Context × EventFlagsCall)) :
    Decidable (KeepsPassed eventflags shared move) := by
  cases move with
  | call entry => exact inferInstanceAs (Decidable True)
  | act index answer => exact inferInstanceAs (Decidable (∀ place ∈ shared.places[index]?, _))

structure Goes (place next : EventFlagsPlace) (before after : Word) : Prop where
  flags : (∃ added, after = before ||| added) ∨ after = before &&& place.mask
  passes : place.passes before → next.passes after
  atomic : ∀ wish value, next.consumed = some (wish, value) →
    before = value ∧ after = value &&& ~~~wish.flags
  satisfied : place.passes before → ∀ wish value, next.consumed = some (wish, value) →
    wish.satisfied value
  balance : ∀ bit, (after.getLsbD bit).toNat + (next.took bit).toNat + (place.turnsOn bit).toNat ≤
    (before.getLsbD bit).toNat + (next.turnsOn bit).toNat

section Steps

variable {eventflags : RtosEventflags} {wish : FlagsWish} {timeout before : Word}

theorem consumed_wait {value : Word} (clears : wish.clears) (valid : osFlagsValid value) :
    (EventFlagsPlace.wait wish timeout (.inr (some value))).consumed = some (wish, value) := by
  simp [EventFlagsPlace.consumed, clears, valid]

theorem consumed_of_error {value : Word} (error : osFlagsValid value = false) :
    (EventFlagsPlace.wait wish timeout (.inr (some value))).consumed = none := by
  simp [EventFlagsPlace.consumed, error]

theorem FlagsWish.getLsbD_of_needs {value : Word} {bit : Nat} (needed : wish.needs bit)
    (holds : wish.satisfied value) : wish.flags.getLsbD bit ∧ value.getLsbD bit := by
  unfold needs at needed
  rw [Bool.and_eq_true, Bool.or_eq_true, decide_eq_true_eq] at needed
  obtain ⟨isFlag, all | only⟩ := needed
  · rw [satisfied, if_pos all] at holds
    exact ⟨isFlag, getLsbD_of_and_eq (of_decide_eq_true holds) isFlag⟩
  · refine ⟨isFlag, ?_⟩
    rw [satisfied, only, BitVec.and_twoPow] at holds
    cases isOn : value.getLsbD bit with
    | true => rfl
    | false =>
        have some_ : BitVec.twoPow 32 bit ≠ 0#32 := by
          intro zero
          rw [only, zero] at isFlag
          simp at isFlag
        simp [isOn, some_.symm] at holds

theorem Goes.rest {place next : EventFlagsPlace} (passes : place.passes before → next.passes before)
    (none_ : next.consumed = none) (sets : ∀ bit, next.turnsOn bit = place.turnsOn bit) :
    Goes place next before before := by
  constructor
  · exact Or.inl ⟨0, by simp⟩
  · exact passes
  · intro wish value isConsumed
    rw [none_] at isConsumed
    cases isConsumed
  · intro _ wish value isConsumed
    rw [none_] at isConsumed
    cases isConsumed
  · intro bit
    simp only [EventFlagsPlace.took, none_, Option.any_none, sets, Bool.toNat_false]
    omega

variable {shared next : Shared Word Word Unit EventFlagsPlace} {index : Nat} {answer : Result}

theorem goes_set (flags turnedOn : Word) (place : SetPlace)
    (performed : next = Program.perform shared index answer
      ((osEventFlagsSet eventflags flags place).map fun next =>
        EventFlagsPlace.set flags (SetPlace.turnedOn flags turnedOn next) next)) :
    ∃ after, next.places = shared.places.set index after ∧
      Goes (.set flags turnedOn (.inl place)) after (shared.memory eventflags.flags)
        (next.memory eventflags.flags) := by
  subst performed
  cases place with
  | wake prevFlags => exact ⟨_, rfl, Goes.rest (fun _ => rfl) rfl fun bit => rfl⟩
  | fetchOr =>
      refine ⟨_, rfl, ?_⟩
      simp only [osEventFlagsSet, Op.map, Program.perform, Function.update_self]
      generalize shared.memory eventflags.flags = before
      constructor
      · exact Or.inl ⟨flags, rfl⟩
      · intro _
        rfl
      · intro wish value isConsumed
        cases isConsumed
      · intro _ wish value isConsumed
        cases isConsumed
      · intro bit
        by_cases same : before &&& flags = flags
        · rw [or_eq_of_and_eq same]
          simp [EventFlagsPlace.took, EventFlagsPlace.consumed, EventFlagsPlace.turnsOn]
        · rw [if_pos same]
          simp only [EventFlagsPlace.took, EventFlagsPlace.consumed, EventFlagsPlace.turnsOn,
            SetPlace.turnedOn, BitVec.getLsbD_or, BitVec.getLsbD_and, BitVec.getLsbD_not]
          by_cases inside : bit < 32
          · cases before.getLsbD bit with
            | _ => simp [inside]
          · simp [BitVec.getLsbD_of_ge, Nat.le_of_not_lt inside]

theorem goes_wait (wish : FlagsWish) (timeout : Word) (place : WaitPlace wish)
    (performed : next = Program.perform shared index answer
      ((osEventFlagsWait eventflags wish timeout place).map (EventFlagsPlace.wait wish timeout))) :
    ∃ after, next.places = shared.places.set index after ∧
      Goes (.wait wish timeout (.inl place)) after (shared.memory eventflags.flags)
        (next.memory eventflags.flags) := by
  subst performed
  cases place with
  | enter =>
      refine ⟨_, rfl, ?_⟩
      simp only [osEventFlagsWait, Op.map, Program.perform, Function.update_of_ne eventflags.apart]
      exact Goes.rest (fun _ => rfl) rfl fun _ => rfl
  | load =>
      refine ⟨_, rfl, ?_⟩
      simp only [osEventFlagsWait, Op.map, Program.perform, Function.update_self]
      refine Goes.rest (fun _ => ?_) rfl fun _ => rfl
      split
      · rename_i found
        simp [EventFlagsPlace.passes, found]
      · split
        · rfl
        · split
          · rfl
          · rfl
  | leave exit =>
      refine ⟨_, rfl, ?_⟩
      simp only [osEventFlagsWait, Op.map, Program.perform, Function.update_of_ne eventflags.apart]
      cases exit with
      | consume => exact Goes.rest id rfl fun _ => rfl
      | threadExit => exact Goes.rest (fun _ => rfl) rfl fun _ => rfl
      | _ => exact Goes.rest (fun _ => rfl) (consumed_of_error (by decide)) fun _ => rfl
  | wait expected =>
      refine ⟨_, rfl, ?_⟩
      refine Goes.rest (fun _ => ?_) rfl fun _ => rfl
      simp only
      split
      · split
        · rfl
        · rfl
      · rfl
  | consume =>
      refine ⟨_, rfl, ?_⟩
      simp only [osEventFlagsWait, Op.map, Program.perform, Function.update_self]
      generalize shared.memory eventflags.flags = before
      have cleared : ∀ other value,
          (EventFlagsPlace.wait wish timeout (.inr (some before))).consumed = some (other, value) →
            other = wish ∧ value = before ∧ wish.clears := by
        intro other value isConsumed
        obtain ⟨clears, same⟩ := Option.ite_none_right_eq_some.mp isConsumed
        cases same
        exact ⟨rfl, rfl, clears.1⟩
      constructor
      · exact Or.inr rfl
      · intro _
        rfl
      · intro other value isConsumed
        obtain ⟨rfl, rfl, clears⟩ := cleared other value isConsumed
        refine ⟨rfl, ?_⟩
        rw [FlagsWish.clear, if_pos clears]
      · intro passes other value isConsumed
        obtain ⟨rfl, rfl, clears⟩ := cleared other value isConsumed
        simpa [EventFlagsPlace.passes, clears] using passes
      · intro bit
        simp only [EventFlagsPlace.took]
        cases isConsumed : (EventFlagsPlace.wait wish timeout (.inr (some before))).consumed with
        | none =>
            simp only [Option.any_none, EventFlagsPlace.turnsOn, BitVec.getLsbD_and]
            cases before.getLsbD bit with
            | false => simp
            | true => simpa using Bool.toNat_le _
        | some pair =>
            obtain ⟨rfl, rfl, clears⟩ := cleared _ _ isConsumed
            simp only [Option.any_some, EventFlagsPlace.turnsOn, FlagsWish.clear, if_pos clears,
              BitVec.getLsbD_and, BitVec.getLsbD_not]
            cases pair.2.getLsbD bit with
            | false => simp
            | true =>
                cases pair.1.flags.getLsbD bit with
                | false => simpa using Bool.toNat_le _
                | true => simp

theorem goes_of_step (moved : (eventFlagsProgram eventflags).step shared (.act index answer) =
      some next) :
    ∃ place after, shared.places[index]? = some place ∧
      next.places = shared.places.set index after ∧
      Goes place after (shared.memory eventflags.flags) (next.memory eventflags.flags) := by
  obtain ⟨place, op, found, isNext, performed⟩ := Program.step_act moved
  refine ⟨place, ?_⟩
  suffices goes : ∃ after, next.places = shared.places.set index after ∧
      Goes place after (shared.memory eventflags.flags) (next.memory eventflags.flags) by
    obtain ⟨after, places, goes⟩ := goes
    exact ⟨after, found, places, goes⟩
  cases place with
  | set flags turnedOn place =>
      cases place with
      | inr value => cases isNext
      | inl place =>
          cases isNext
          exact goes_set flags turnedOn place performed
  | wait wish timeout place =>
      cases place with
      | inr value => cases isNext
      | inl place =>
          cases isNext
          exact goes_wait wish timeout place performed
  | get place =>
      cases place with
      | inr value => cases isNext
      | inl place =>
          cases isNext
          subst performed
          refine ⟨_, rfl, ?_⟩
          simp only [osEventFlagsGet, Op.map, Program.perform, Function.update_self]
          exact Goes.rest (fun _ => rfl) rfl fun _ => rfl
  | clear flags place =>
      cases place with
      | inr value => cases isNext
      | inl place =>
          cases isNext
          subst performed
          refine ⟨_, rfl, ?_⟩
          simp only [osEventFlagsClear, Op.map, Program.perform, Function.update_self]
          constructor
          · exact Or.inr rfl
          · intro _
            rfl
          · intro wish value isConsumed
            cases isConsumed
          · intro _ wish value isConsumed
            cases isConsumed
          · intro bit
            simp only [EventFlagsPlace.took, EventFlagsPlace.consumed, EventFlagsPlace.turnsOn,
              Option.any_none, BitVec.getLsbD_and]
            cases (shared.memory eventflags.flags).getLsbD bit with
            | false => simp
            | true => simpa using Bool.toNat_le _

theorem EventFlagsPlace.passes_or {flags added : Word} {place : EventFlagsPlace}
    (holds : place.passes flags) : place.passes (flags ||| added) := by
  unfold passes at holds ⊢
  split at holds
  all_goals try rfl
  all_goals
    simp only [Bool.or_eq_true] at holds ⊢
    exact holds.imp_right FlagsWish.satisfied_or

theorem enter_fresh (entry : Context × EventFlagsCall) (flags : Word) :
    ((eventFlagsProgram eventflags).enter entry).passes flags ∧
      ((eventFlagsProgram eventflags).enter entry).consumed = none := by
  obtain ⟨context, call⟩ := entry
  cases call with
  | osEventFlagsSet set => exact ⟨rfl, rfl⟩
  | osEventFlagsClear cleared => exact ⟨rfl, rfl⟩
  | osEventFlagsGet => exact ⟨rfl, rfl⟩
  | osEventFlagsWait wish timeout =>
      simp only [eventFlagsProgram, osEventFlagsWaitStart]
      split
      · exact ⟨rfl, consumed_of_error (by decide)⟩
      · split
        · rename_i invalid
          refine ⟨rfl, consumed_of_error ?_⟩
          cases status : osKernelContextIsValid true timeout context with
          | osOK => exact (invalid status).elim
          | _ => decide
        · split
          · rename_i invalid
            refine ⟨rfl, consumed_of_error ?_⟩
            cases status : osIsResourceValid eventflags.marker rtosEventflagsMarker with
            | osOK => exact (invalid status).elim
            | _ => decide
          · exact ⟨rfl, rfl⟩

end Steps

/-- Calls that have found their conditions satisfied will consume flags that satisfy them. -/
structure Consuming (eventflags : RtosEventflags) (shared : Shared Word Word Unit EventFlagsPlace) :
    Prop where
  passed : ∀ place ∈ shared.places, place.passes (shared.memory eventflags.flags)
  satisfied : ∀ place ∈ shared.places, ∀ wish value, place.consumed = some (wish, value) →
    wish.satisfied value
  once : ∀ bit, ((shared.memory eventflags.flags).getLsbD bit).toNat +
    shared.places.countP (EventFlagsPlace.took bit) ≤
      shared.places.countP (EventFlagsPlace.turnsOn bit)

section Invariant

variable {eventflags : RtosEventflags} {shared next : Shared Word Word Unit EventFlagsPlace}
  {move : Move Result (Context × EventFlagsCall)}

theorem Consuming.step (consuming : Consuming eventflags shared)
    (keeps : KeepsPassed eventflags shared move)
    (moved : (eventFlagsProgram eventflags).step shared move = some next) :
    Consuming eventflags next := by
  cases move with
  | call entry =>
      obtain rfl := Option.some_inj.mp moved
      obtain ⟨passes, none_⟩ := @enter_fresh eventflags entry (shared.memory eventflags.flags)
      constructor
      · intro place member
        rcases List.mem_append.mp member with old | new
        · exact consuming.passed place old
        · rw [List.mem_singleton.mp new]
          exact passes
      · intro place member wish value isConsumed
        rcases List.mem_append.mp member with old | new
        · exact consuming.satisfied place old wish value isConsumed
        · rw [List.mem_singleton.mp new, none_] at isConsumed
          cases isConsumed
      · intro bit
        have before := consuming.once bit
        have took : ((eventFlagsProgram eventflags).enter entry).took bit = false := by
          rw [EventFlagsPlace.took, none_]
          rfl
        simp only [List.countP_append, List.countP_singleton, took]
        simp only [Bool.false_eq_true, if_false]
        omega
  | act index answer =>
      obtain ⟨place, after, found, places, goes⟩ := goes_of_step moved
      have passed := consuming.passed place (List.mem_of_getElem? found)
      constructor
      · intro other member
        rw [places] at member
        rcases mem_set_or member with rfl | rest
        · exact goes.passes passed
        · rcases goes.flags with ⟨added, more⟩ | less
          · rw [more]
            exact EventFlagsPlace.passes_or
              (consuming.passed other (List.mem_of_mem_eraseIdx rest))
          · rw [less]
            exact keeps place found other rest
      · intro other member wish value isConsumed
        rw [places] at member
        rcases List.mem_or_eq_of_mem_set member with old | rfl
        · exact consuming.satisfied other old wish value isConsumed
        · exact goes.satisfied passed wish value isConsumed
      · intro bit
        have before := consuming.once bit
        have balance := goes.balance bit
        have took := @countP_set _ _ (EventFlagsPlace.took bit) _ _ found after
        have turns := @countP_set _ _ (EventFlagsPlace.turnsOn bit) _ _ found after
        rw [places]
        omega

end Invariant

section

variable {cores : Nat} [NeZero cores]

/-- A wait that clears its flags and returns no error returns a value that satisfies its condition, and
clears the flags in the step in which it finds them; and no more of them succeed for which some flag is
needed than there are calls that have turned this flag on. -/
structure ConsumesOnce (eventflags : RtosEventflags) (machine : Machine cores Unit EventFlagsPlace) :
    Prop where
  satisfied : ∀ call ∈ machine.calls, ∀ wish timeout value,
    call.place = EventFlagsPlace.wait wish timeout (.inr (some value)) → wish.clears → osFlagsValid value →
      wish.satisfied value
  atomic : ∀ label (next : Machine cores Unit EventFlagsPlace) (index : Nat) before after,
    Machine.step (eventFlagsProgram eventflags) eventflags.cells machine label = some next →
    machine.calls[index]? = some before → next.calls[index]? = some after →
    before.place ≠ after.place → ∀ wish timeout value,
      after.place = .wait wish timeout (.inr (some value)) → wish.clears → osFlagsValid value →
        machine.kernel.memory eventflags.flags = value ∧
          next.kernel.memory eventflags.flags = value &&& ~~~wish.flags
  once : ∀ bit, (machine.calls.map Call.place).countP (EventFlagsPlace.succeedsFor bit) ≤
    (machine.calls.map Call.place).countP (EventFlagsPlace.turnsOn bit)

variable {eventflags : RtosEventflags} {machine next : Machine cores Unit EventFlagsPlace}

theorem consumes_of_step (sound : machine.Sound eventflags.cells) {label : Label cores EventFlagsCall}
    (moved : Machine.step (eventFlagsProgram eventflags) eventflags.cells machine label = some next)
    {index : Nat} {before after : Call cores EventFlagsPlace}
    (found : machine.calls[index]? = some before) (foundNext : next.calls[index]? = some after)
    (different : before.place ≠ after.place) {wish : FlagsWish} {value : Word}
    (consumed : after.place.consumed = some (wish, value)) :
    machine.kernel.memory eventflags.flags = value ∧
      next.kernel.memory eventflags.flags = value &&& ~~~wish.flags := by
  have isCell := eventflags.cells_flags
  have follows := (Machine.step_shared (confined_eventFlagsProgram eventflags) sound moved).2
  have place : (machine.shared eventflags.cells).places[index]? = some before.place := by
    simp [Machine.shared, found]
  have placeNext : (next.shared eventflags.cells).places[index]? = some after.place := by
    simp [Machine.shared, foundNext]
  cases isMove : machine.move (eventFlagsProgram eventflags) label with
  | none =>
      simp only [isMove] at follows
      rw [follows, place] at placeNext
      exact (different (Option.some_inj.mp placeNext)).elim
  | some move =>
      simp only [isMove] at follows
      cases move with
      | call entry =>
          rw [← Option.some_inj.mp follows] at placeNext
          have bound := (List.getElem?_eq_some_iff.mp place).1
          rw [List.getElem?_append_left bound, place] at placeNext
          exact (different (Option.some_inj.mp placeNext)).elim
      | act acting answer =>
          obtain ⟨first, last, isFirst, places, goes⟩ := goes_of_step follows
          rw [Machine.memory_shared isCell, Machine.memory_shared isCell] at goes
          rw [places] at placeNext
          by_cases same : acting = index
          · subst same
            have bound := (List.getElem?_eq_some_iff.mp place).1
            rw [List.getElem?_set_self bound] at placeNext
            rw [← Option.some_inj.mp placeNext] at consumed
            exact goes.atomic wish value consumed
          · rw [List.getElem?_set_ne same, place] at placeNext
            exact (different (Option.some_inj.mp placeNext)).elim

/-- As long as no flag is taken from a call that has found its condition satisfied, each event is
consumed once. -/
theorem consumesOnce_of_guarded
    (reached : (eventFlagsSystem cores eventflags).Guarded
      (Machine.Meets (eventFlagsProgram eventflags) eventflags.cells (KeepsPassed eventflags))
      machine) : ConsumesOnce eventflags machine := by
  have consuming : Consuming eventflags (machine.shared eventflags.cells) := by
    refine invariant_of_machine (Consuming eventflags) (confined_eventFlagsProgram eventflags) ?_
      (fun shared move next consuming keeps moved => consuming.step keeps moved) reached
    constructor
    · exact List.forall_mem_nil _
    · exact List.forall_mem_nil _
    · intro bit
      simp [eventflags.cells_flags]
  have sound := (shared_of_machine (confined_eventFlagsProgram eventflags) reached).1
  constructor
  · intro call member wish timeout value place clears valid
    refine consuming.satisfied call.place (List.mem_map_of_mem member) wish value ?_
    rw [place]
    exact consumed_wait clears valid
  · intro label next index before after moved found foundNext different wish timeout value place
      clears valid
    refine consumes_of_step sound moved found foundNext different ?_
    rw [place]
    exact consumed_wait clears valid
  · intro bit
    have once := consuming.once bit
    have fewer : (machine.calls.map Call.place).countP (EventFlagsPlace.succeedsFor bit) ≤
        (machine.calls.map Call.place).countP (EventFlagsPlace.took bit) := by
      apply List.countP_mono_left
      intro place member succeeds
      obtain ⟨⟨wish, value⟩, consumed, needed⟩ := (Option.any_eq_true _ _).mp succeeds
      have holds := consuming.satisfied place member wish value consumed
      obtain ⟨isFlag, isOn⟩ := FlagsWish.getLsbD_of_needs needed holds
      rw [EventFlagsPlace.took, consumed]
      simp [isFlag, isOn]
    have places : (machine.shared eventflags.cells).places = machine.calls.map Call.place := rfl
    rw [places] at once
    omega

end

/-- Both waits find flags that a handler has set, and each takes its own while the other one is on its way;
a third one finds none. -/
theorem consumesOnce_of_guarded_set :
    ∃ machine : Machine 1 Unit EventFlagsPlace,
      machine.calls.map Call.place =
        [.set 3 3 (.inr 3), .wait ⟨1, 0⟩ osWaitForever (.inr (some 3)),
          .wait ⟨2, 0⟩ 0 (.inr (some 2)), .wait ⟨1, 0⟩ 0 (.inr (some osFlagsErrorResource))] ∧
      ConsumesOnce someFlags machine := by
  obtain ⟨machine, reached, places⟩ := exists_machine (eventFlagsProgram someFlags)
    (Machine.Meets (eventFlagsProgram someFlags) someFlags.cells (KeepsPassed someFlags))
    [someFlags.flags, someFlags.waiters] (fun _ => 0) ()
    (oneRunner ++ [.futexInit 0x100 0x104 0])
    [.interrupt 0 (.osEventFlagsSet 3), .act 0 0, .act 0 0,
      .call 0 (.osEventFlagsWait ⟨1, 0⟩ osWaitForever), .act 0 1, .act 0 1,
      .interrupt 0 (.osEventFlagsWait ⟨2, 0⟩ 0), .act 0 2, .act 0 2, .act 0 1, .act 0 1,
      .act 0 2, .act 0 2, .interrupt 0 (.osEventFlagsWait ⟨1, 0⟩ 0), .act 0 3, .act 0 3, .act 0 3]
    (fun machine => machine.calls.map Call.place =
      [.set 3 3 (.inr 3), .wait ⟨1, 0⟩ osWaitForever (.inr (some 3)),
        .wait ⟨2, 0⟩ 0 (.inr (some 2)), .wait ⟨1, 0⟩ 0 (.inr (some osFlagsErrorResource))])
    (by decide)
  exact ⟨machine, places, consumesOnce_of_guarded reached⟩

/-- A handler consumes the flag that a thread has found, and the thread returns no flag, but no error
either. -/
theorem not_consumesOnce :
    ¬∀ machine : Machine 1 Unit EventFlagsPlace,
      (eventFlagsSystem 1 someFlags).Reachable machine → ConsumesOnce someFlags machine := by
  intro always
  obtain ⟨machine, reached, places⟩ := exists_machine (eventFlagsProgram someFlags)
    (fun _ _ => True) [someFlags.flags, someFlags.waiters] (fun _ => 0) ()
    (oneRunner ++ [.futexInit 0x100 0x104 0])
    [.call 0 (.osEventFlagsSet 1), .act 0 0, .act 0 0,
      .call 0 (.osEventFlagsWait ⟨1, 0⟩ 0), .act 0 1, .act 0 1,
      .interrupt 0 (.osEventFlagsWait ⟨1, 0⟩ 0), .act 0 2, .act 0 2, .act 0 2, .act 0 2,
      .act 0 1, .act 0 1]
    (fun machine => machine.calls.map Call.place = [.set 1 1 (.inr 1),
      .wait ⟨1, 0⟩ 0 (.inr (some 0)), .wait ⟨1, 0⟩ 0 (.inr (some 1))]) (by decide)
  have none_ : EventFlagsPlace.wait ⟨1, 0⟩ 0 (.inr (some 0)) ∈ machine.calls.map Call.place := by
    rw [places]
    decide
  obtain ⟨call, member, place⟩ := List.mem_map.mp none_
  have satisfied := (always machine reached).satisfied call member _ _ _ place (by decide) (by decide)
  exact absurd satisfied (by decide)

end PicoToolkit
