import PicoToolkit.Cmsis.EventFlags
import PicoToolkit.Threads.Announcing

/-!
Who wakes the waiters of event flags: a set that turns a flag on wakes all of them, and what clears
flags satisfies nobody.
-/

namespace PicoToolkit

open Ring Transition Interleaving

def EventFlagsPlace.wishes (flags : Word) : EventFlagsPlace → Bool
  | .wait wish _ _ => wish.satisfied flags
  | _ => false

/-- The call is between its `atomic_fetch_or` and its wake. -/
def EventFlagsPlace.announces : EventFlagsPlace → Bool
  | .set _ _ (.inl (.wake _)) => true
  | _ => false

def EventFlagsPlace.missed : EventFlagsPlace → Bool
  | .set _ _ (.inr value) => decide (value = osFlagsError)
  | _ => false

section

variable {cores : Nat}

/-- No call of `osEventFlagsSet` has failed to wake the waiters. -/
def SetsSucceed (machine : Machine cores Unit EventFlagsPlace) : Prop :=
  ∀ call ∈ machine.calls, ∀ flags turnedOn, call.place ≠ .set flags turnedOn (.inr osFlagsError)

/-- Each thread that is blocked on the futex waits for some condition; if the flags satisfy it, then
somebody is about to wake the thread, or a deferred wake is pending. -/
def LosesNoEvent (eventflags : RtosEventflags) (machine : Machine cores Unit EventFlagsPlace) : Prop :=
  ∀ task ∈ machine.kernel.queue (.waiters eventflags.futex),
    ∃ call wish timeout expected, machine.callOf task = some call ∧
      call.place = .wait wish timeout (.inl (.wait expected)) ∧
      (wish.satisfied (machine.kernel.memory eventflags.flags) →
        (∃ other ∈ machine.calls, other.place.announces) ∨
          machine.kernel.Asked eventflags.futex)

variable [NeZero cores]

/-- Event flags as `osEventFlagsNew` leaves them, whose futex nobody else uses. -/
abbrev eventFlagsAlone (cores : Nat) [NeZero cores] (eventflags : RtosEventflags) :
    System (Machine cores Unit EventFlagsPlace) (Label cores EventFlagsCall) :=
  aloneSystem (eventFlagsProgram eventflags) eventflags.cells (fun _ => 0) () eventflags.futex
    eventflags.flags

theorem wait_of_eventFlagsOp {eventflags : RtosEventflags} {place : EventFlagsPlace}
    {futex expected ticks : Word} {resume : Result → EventFlagsPlace}
    (isNext : (eventFlagsProgram eventflags).op place =
      some (.service (.wait futex expected ticks) resume)) :
    ∃ wish timeout found, place = .wait wish timeout (.inl (.wait found)) ∧
      expected = (found : Word) := by
  cases place with
  | set flags turnedOn place =>
      rcases place with (_ | _) | _
      all_goals cases isNext
  | clear flags place =>
      cases place with
      | _ => cases isNext
  | get place =>
      cases place with
      | _ => cases isNext
  | wait wish timeout place =>
      cases place with
      | inr value => cases isNext
      | inl place =>
          cases place with
          | wait found =>
              cases isNext
              exact ⟨wish, _, found, rfl, rfl⟩
          | _ => cases isNext

section Words

variable {Data Place : Type} {eventflags : RtosEventflags} {act : Word → Word × Place}

theorem wakes_of_osEventFlagsSet {flags : Word} {place : SetPlace} {outer : SetPlace ⊕ Word → Place}
    (isNext : (osEventFlagsSet eventflags flags place : ThreadOp Data _).map outer =
      .word eventflags.flags act) (value : Word) :
    (∃ prevFlags, (act value).2 = outer (.inl (.wake prevFlags))) ∨ (act value).1 = value := by
  cases place with
  | wake prevFlags => cases isNext
  | fetchOr =>
      cases isNext
      by_cases same : value &&& flags = flags
      · exact Or.inr (or_eq_of_and_eq same)
      · refine Or.inl ⟨value, ?_⟩
        simp only [if_pos same]

theorem masks_of_osEventFlagsWait {wish : FlagsWish} {timeout : Word} {place : WaitPlace wish}
    {outer : WaitPlace wish ⊕ Option Word → Place}
    (isNext : (osEventFlagsWait eventflags wish timeout place : ThreadOp Data _).map outer =
      .word eventflags.flags act) : ∃ mask, ∀ value, (act value).1 = value &&& mask := by
  cases place with
  | load =>
      cases isNext
      exact ⟨0xffffffff, fun value => (BitVec.and_allOnes).symm⟩
  | consume =>
      cases isNext
      exact ⟨_, fun value => rfl⟩
  | wait found => cases isNext
  | enter | leave exit =>
      have address := (Op.word.inj isNext).1
      exact (eventflags.apart address.symm).elim

end Words

theorem announcing_eventFlags (eventflags : RtosEventflags) :
    Announcing (eventFlagsProgram eventflags) eventflags.futex eventflags.flags
      (fun place flags => place.wishes flags) EventFlagsPlace.announces EventFlagsPlace.missed := by
  constructor
  · intro place expected ticks resume isNext
    obtain ⟨wish, timeout, found, rfl, rfl⟩ := wait_of_eventFlagsOp isNext
    exact found.property
  · intro place act isNext value
    have less : ∀ (mask : Word) (other : EventFlagsPlace),
        other.wishes (value &&& mask) → other.wishes value := by
      intro mask other holds
      cases other with
      | wait wish timeout inner => exact FlagsWish.satisfied_of_and holds
      | _ => exact holds
    cases place with
    | set flags turnedOn place =>
        cases place with
        | inr value => cases isNext
        | inl place =>
            rcases wakes_of_osEventFlagsSet (Option.some_inj.mp isNext) value with ⟨_, goes⟩ | same
            · rw [goes]
              exact Or.inl rfl
            · refine Or.inr fun other holds => ?_
              rwa [same] at holds
    | clear flags place =>
        cases place with
        | inr value => cases isNext
        | inl place =>
            cases isNext
            exact Or.inr (less _)
    | get place =>
        cases place with
        | inr value => cases isNext
        | inl place =>
            cases isNext
            exact Or.inr fun _ => id
    | wait wish timeout place =>
        cases place with
        | inr value => cases isNext
        | inl place =>
            obtain ⟨mask, masks⟩ := masks_of_osEventFlagsWait (Option.some_inj.mp isNext)
            refine Or.inr fun other holds => ?_
            rw [masks] at holds
            exact less mask other holds
  · intro place announces
    rcases place with ⟨flags, turnedOn, (_ | prevFlags) | _⟩ | _ | _ | _
    · cases announces
    · refine ⟨_, rfl, fun status fails => ?_⟩
      simp [EventFlagsPlace.missed, fails]
    all_goals cases announces
  · intro place missed
    rcases place with ⟨flags, turnedOn, (_ | prevFlags) | _⟩ | _ | _ | _
    · cases missed
    · cases missed
    · rfl
    all_goals cases missed
  · intro place value flags resume isNext
    rcases place with ⟨_, _, (_ | _) | _⟩ | ⟨_, _ | _⟩ | (_ | _) | ⟨_, _, (_ | _ | _ | _ | _) | _⟩
    all_goals cases isNext

/-- No event is lost, whatever the calls and the rest of the system do, unless a wake is refused. -/
theorem losesNoEvent_of_reachable {eventflags : RtosEventflags}
    {machine : Machine cores Unit EventFlagsPlace}
    (reached : (eventFlagsAlone cores eventflags).Reachable machine)
    (succeed : SetsSucceed machine) : LosesNoEvent eventflags machine := by
  have announced := announced_of_alone (announcing_eventFlags eventflags)
    (confined_eventFlagsProgram eventflags) eventflags.cells_flags reached
  intro task waits
  obtain ⟨call, expected, ticks, resume, isLast, _, isNext, hears⟩ := announced.waiters task waits
  obtain ⟨wish, timeout, found, place, _⟩ := wait_of_eventFlagsOp isNext
  refine ⟨call, wish, timeout, found, isLast, place, fun holds => ?_⟩
  rw [place] at hears
  rcases hears holds with tells | asked | ⟨other, member, _, missed⟩
  · exact Or.inl tells
  · exact Or.inr asked.asked
  · cases isSet : other.place with
    | set flags turnedOn inner =>
        cases inner with
        | inr value =>
            rw [isSet] at missed
            obtain rfl : value = osFlagsError := of_decide_eq_true missed
            exact (succeed other member flags turnedOn isSet).elim
        | inl inner =>
            rw [isSet] at missed
            cases missed
    | _ =>
        rw [isSet] at missed
        cases missed

end

theorem losesNoEvent_of_reachable_set :
    ∃ machine : Machine 1 Unit EventFlagsPlace,
      machine.kernel.queue (.waiters someFlags.futex) = [0x2000] ∧
        machine.kernel.memory someFlags.flags = 1 ∧ LosesNoEvent someFlags machine := by
  obtain ⟨machine, reached, places, queue, flags⟩ := exists_alone (eventFlagsProgram someFlags)
    (fun _ _ => True) [someFlags.flags, someFlags.waiters] (fun _ => 0) () someFlags.futex
    someFlags.flags (oneRunner ++ [.futexInit 0x100 0x104 0])
    (List.flatten [[.call 0 (.osEventFlagsWait ⟨1, 0⟩ osWaitForever), .act 0 0, .act 0 0, .act 0 0],
      switchPass.map .kernel, [.interrupt 0 (.osEventFlagsSet 1), .act 0 1]])
    (fun machine => machine.calls.map Call.place =
        [.wait ⟨1, 0⟩ osWaitForever (.inl (.wait ⟨0, by decide⟩)), .set 1 1 (.inl (.wake 0))] ∧
      machine.kernel.queue (.waiters someFlags.futex) = [0x2000] ∧
      machine.kernel.memory someFlags.flags = 1) (by decide)
  refine ⟨machine, queue, flags, losesNoEvent_of_reachable reached ?_⟩
  intro call member set turnedOn isSet
  have isPlace := places ▸ List.mem_map_of_mem member
  rw [isSet] at isPlace
  simp at isPlace

end PicoToolkit
