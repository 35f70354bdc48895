import PicoToolkit.Cmsis.DequeSequence
import PicoToolkit.Cmsis.EventWakes

/-!
Who waits for space or data in a deque, and who will look at it again: a flag that is set, an
announcement on its way, or calls that have not yet looked.
-/

namespace PicoToolkit

open Ring Memory Transition Interleaving

def dequeFlag (puts : Bool) : Word :=
  if puts then rtosDequeSpaceAvailable else rtosDequeDataAvailable

def RtosDeque.supply (deque : RtosDeque) (puts : Bool) (data : DequeData) : Nat :=
  if puts then deque.size - 1 - (deque.contents data).length else (deque.contents data).length

namespace DequePlace

def looks (puts : Bool) : DequePlace → Bool
  | .check access | .arrive access | .look access | .clear access | .wait access (.leave .consume)
  | .wait access .consume => access.puts == puts
  | _ => false

def waits (puts : Bool) : DequePlace → Bool
  | .wait access .enter | .wait access .load | .wait access (.wait _) => access.puts == puts
  | _ => false

/-- The call has been through its critical section, and not yet set the flag of the other side. -/
def tells (puts : Bool) : DequePlace → Bool
  | .finish access _ | .kick access _ .fetchOr => access.puts != puts
  | _ => false

def resets : DequePlace → Bool
  | .resetSet _ | .resetDrain | .resetPositions | .resetClear => true
  | _ => false

end DequePlace

/-- What there is to put or get will be found: the flag is set or will be, enough calls are going to look,
or nobody waits. -/
def Foreseen (deque : RtosDeque) (puts : Bool) (isSet : Prop) (data : DequeData)
    (places : List DequePlace) : Prop :=
  isSet ∨ 0 < places.countP (DequePlace.tells puts) ∨
    deque.supply puts data ≤ places.countP (DequePlace.looks puts) ∨
    places.countP (DequePlace.waits puts) = 0

instance (deque : RtosDeque) (puts : Bool) (isSet : Prop) [Decidable isSet] (data : DequeData)
    (places : List DequePlace) : Decidable (Foreseen deque puts isSet data places) :=
  inferInstanceAs (Decidable (_ ∨ _))

def KeepsAnnouncement (deque : RtosDeque) (shared : Shared Word Word DequeData DequePlace) :
    DequePlace → Prop
  | .clear access => Foreseen deque access.puts False shared.data shared.places
  | _ => True

def CallsForever : Context × DequeCall → Prop
  | (.thread, .osDequePutBack _ timeout) | (.thread, .osDequeGetFront _ timeout) =>
      timeout = osWaitForever
  | _ => False

instance (entry : Context × DequeCall) : Decidable (CallsForever entry) := by
  unfold CallsForever
  split
  all_goals infer_instance

def OnlyForever : Move Result (Context × DequeCall) → Prop
  | .call entry => CallsForever entry
  | .act _ _ => True

instance (move : Move Result (Context × DequeCall)) : Decidable (OnlyForever move) :=
  match move with
  | .call entry => inferInstanceAs (Decidable (CallsForever entry))
  | .act _ _ => inferInstanceAs (Decidable True)

def KeepsAnnouncements (deque : RtosDeque) (shared : Shared Word Word DequeData DequePlace) :
    Move Result (Context × DequeCall) → Prop
  | .call entry => CallsForever entry
  | .act index _ => ∀ place ∈ shared.places[index]?, KeepsAnnouncement deque shared place

instance (deque : RtosDeque) (shared : Shared Word Word DequeData DequePlace) (place : DequePlace) :
    Decidable (KeepsAnnouncement deque shared place) := by
  unfold KeepsAnnouncement
  split
  all_goals infer_instance

instance (deque : RtosDeque) (shared : Shared Word Word DequeData DequePlace)
    (move : Move Result (Context × DequeCall)) : Decidable (KeepsAnnouncements deque shared move) :=
  match move with
  | .call entry => inferInstanceAs (Decidable (CallsForever entry))
  | .act index _ =>
      inferInstanceAs (Decidable (∀ place ∈ shared.places[index]?, KeepsAnnouncement deque shared place))

section Flags

variable {flags : Word}

def Announces (flags : Word) : Prop := flags &&& 3 = flags

theorem Announces.and (announces : Announces flags) (mask : Word) : Announces (flags &&& mask) := by
  rw [Announces, BitVec.and_assoc, BitVec.and_comm mask, ← BitVec.and_assoc, announces]

theorem Announces.or (announces : Announces flags) (puts : Bool) :
    Announces (flags ||| dequeFlag puts) := by
  have own : dequeFlag puts &&& 3 = dequeFlag puts := by
    cases puts with
    | _ => decide
  rw [Announces, BitVec.and_or_distrib_right, announces, own]

theorem Announces.none (announces : Announces flags) {mask : Word} (other : 3 &&& mask = 0) :
    flags &&& mask = 0 := by
  rw [← announces, BitVec.and_assoc, other]
  exact BitVec.and_zero

theorem Announces.not_failed (announces : Announces flags) : DequePlace.failed flags = false :=
  decide_eq_false (not_not_intro (announces.none (by decide)))

theorem and_dequeFlag {own puts : Bool} (other : own ≠ puts) :
    flags &&& ~~~dequeFlag own &&& dequeFlag puts = flags &&& dequeFlag puts := by
  have apart : ~~~dequeFlag own &&& dequeFlag puts = dequeFlag puts := by
    cases own with
    | false =>
        cases puts with
        | false => exact (other rfl).elim
        | true => decide
    | true =>
        cases puts with
        | false => decide
        | true => exact (other rfl).elim
  rw [BitVec.and_assoc, apart]

theorem or_dequeFlag (puts : Bool) : (flags ||| dequeFlag puts) &&& dequeFlag puts ≠ 0 := by
  have own : (flags ||| dequeFlag puts) &&& dequeFlag puts = dequeFlag puts := by
    apply BitVec.eq_of_getLsbD_eq
    intro bit _
    rw [BitVec.getLsbD_and, BitVec.getLsbD_or]
    cases (dequeFlag puts).getLsbD bit with
    | _ => simp
  rw [own]
  cases puts with
  | _ => decide

theorem or_and_ne_zero {mask : Word} (on : flags &&& mask ≠ 0) (more : Word) :
    (flags ||| more) &&& mask ≠ 0 := by
  intro none_
  apply on
  have own : flags &&& mask = flags &&& ((flags ||| more) &&& mask) := by
    apply BitVec.eq_of_getLsbD_eq
    intro bit _
    simp only [BitVec.getLsbD_and, BitVec.getLsbD_or]
    cases flags.getLsbD bit with
    | _ => simp
  rw [own, none_]
  exact BitVec.and_zero

end Flags

/-- What the next operation of a call is for those who wait: it takes nothing from them, it finds that
there is nothing to put or get, it puts or gets, or it clears a flag. -/
inductive DequeTurn (deque : RtosDeque) (before : Word) (data : DequeData) (place : DequePlace) :
    Word → DequeData → DequePlace → Prop
  | goesOn {flags : Word} {after : DequePlace} :
      (∀ puts, before &&& dequeFlag puts ≠ 0 → flags &&& dequeFlag puts ≠ 0) →
      (∀ puts, place.tells puts → after.tells puts ∨ flags &&& dequeFlag puts ≠ 0) →
      (∀ puts, place.looks puts → after.looks puts) →
      (∀ puts, after.waits puts → place.waits puts) →
      DequeTurn deque before data place flags data after
  | blocks {access : DequeAccess} {after : DequePlace} : place = .look access →
      deque.blocks access data = true → (∀ puts, access.puts ≠ puts → after.waits puts = false) →
      DequeTurn deque before data place before data after
  | transfer {access : DequeAccess} : place = .look access → deque.blocks access data = false →
      DequeTurn deque before data place before (deque.transfer access data).1
        (.finish access (deque.transfer access data).2)
  | clears {access : DequeAccess} : place = .clear access →
      DequeTurn deque before data place (before &&& ~~~access.awaits) data (.look access)

section Counting

variable {deque : RtosDeque} {puts : Bool} {isSet isSetAfter : Prop} {data after : DequeData}
  {places : List DequePlace} {index : Nat} {place moved : DequePlace}

theorem Foreseen.move (foreseen : Foreseen deque puts isSet data places)
    (found : places[index]? = some place) (stays : isSet → isSetAfter)
    (tells : place.tells puts → moved.tells puts ∨ isSetAfter)
    (looks : deque.supply puts after + (place.looks puts).toNat ≤
      deque.supply puts data + (moved.looks puts).toNat)
    (waits : moved.waits puts → place.waits puts) :
    Foreseen deque puts isSetAfter after (places.set index moved) := by
  have telling := @countP_set _ places (DequePlace.tells puts) _ _ found moved
  have looking := @countP_set _ places (DequePlace.looks puts) _ _ found moved
  have waiting := @countP_set _ places (DequePlace.waits puts) _ _ found moved
  rcases foreseen with set_ | pending | enough | nobody
  · exact Or.inl (stays set_)
  · cases was : place.tells puts with
    | false =>
        rw [was, Bool.toNat_false] at telling
        exact Or.inr (Or.inl (by omega))
    | true =>
        rcases tells was with still | set_
        · rw [was, still] at telling
          exact Or.inr (Or.inl (by omega))
        · exact Or.inl set_
  · exact Or.inr (Or.inr (Or.inl (by omega)))
  · refine Or.inr (Or.inr (Or.inr ?_))
    cases is : moved.waits puts with
    | false =>
        rw [is, Bool.toNat_false] at waiting
        omega
    | true =>
        rw [is, waits is] at waiting
        omega

theorem Foreseen.of_tells (bound : index < places.length) (tells : moved.tells puts) :
    Foreseen deque puts isSetAfter after (places.set index moved) :=
  Or.inr (Or.inl (List.countP_pos_iff.mpr ⟨moved, List.mem_set bound moved, tells⟩))

theorem Foreseen.call (foreseen : Foreseen deque puts isSet data places)
    (new : moved.waits puts = false) : Foreseen deque puts isSet data (places ++ [moved]) := by
  rw [Foreseen, List.countP_append, List.countP_append, List.countP_append]
  have nobody : [moved].countP (DequePlace.waits puts) = 0 := by simp [new]
  rcases foreseen with set_ | pending | enough | none_
  · exact Or.inl set_
  · exact Or.inr (Or.inl (by omega))
  · exact Or.inr (Or.inr (Or.inl (by omega)))
  · exact Or.inr (Or.inr (Or.inr (by omega)))

theorem supply_eq_zero {initial : Bytes} {access : DequeAccess}
    (bounded : deque.Bounded initial data) :
    deque.supply access.puts data = 0 ↔ deque.blocks access data := by
  obtain ⟨empty, full, bound⟩ := RtosDeque.length_contents bounded
  rw [RtosDeque.blocks, RtosDeque.supply]
  cases puts : access.puts with
  | true =>
      rw [if_pos rfl, if_pos rfl, ← full]
      omega
  | false =>
      rw [if_neg Bool.false_ne_true, if_neg Bool.false_ne_true]
      exact empty

theorem supply_transfer {initial : Bytes} {access : DequeAccess}
    (bounded : deque.Bounded initial data) (free : deque.blocks access data = false)
    (isFifo : access.isFifo) :
    deque.supply access.puts (deque.transfer access data).1 + 1 ≤ deque.supply access.puts data := by
  have done := fifo_transfer bounded free isFifo
  rw [RtosDeque.supply, RtosDeque.supply]
  obtain ⟨puts, side, element, timeout, context⟩ := access
  cases puts with
  | true =>
      cases side with
      | front => cases isFifo
      | back =>
          obtain ⟨room, appended⟩ := Option.ite_none_right_eq_some.mp done
          rw [← Option.some_inj.mp appended, List.length_append, List.length_singleton]
          simp only [if_true]
          omega
  | false =>
      cases side with
      | back => cases isFifo
      | front =>
          obtain ⟨first, rest⟩ := Option.ite_none_right_eq_some.mp done
          have some_ : 0 < (deque.contents data).length :=
            List.length_pos_of_mem (List.mem_of_mem_head? first)
          rw [← Option.some_inj.mp rest, List.length_tail]
          simp only [Bool.false_eq_true, if_false]
          omega

end Counting

section Turns

variable {deque : RtosDeque} {data : DequeData} {flags : Word} {access : DequeAccess}

namespace DequePlace

theorem afterCheck_inr (announces : Announces flags) :
    afterCheck access (.inr flags) = .arrive access := by
  rw [afterCheck, if_neg (not_not_intro (announces.none (by decide)))]

theorem afterClear_inr (announces : Announces flags) :
    afterClear access (.inr flags) = .look access := by
  rw [afterClear, if_neg (by rw [announces.not_failed]; exact Bool.false_ne_true),
    if_neg (not_not_intro (announces.none (by decide)))]

theorem afterWait_consumed (announces : Announces flags) :
    afterWait deque access (.inr (some flags)) = .clear access := by
  have start : osEventFlagsClearStart deque.events access.awaits = .inl () := by
    have valid : osIsResourceValid deque.events.marker rtosEventflagsMarker = .osOK := by
      rw [deque.made]
      rfl
    rw [osEventFlagsClearStart, if_neg, if_neg (not_not_intro valid)]
    rw [DequeAccess.awaits]
    cases access.puts with
    | _ => decide
  rw [afterWait, announces.not_failed, start]
  rfl

theorem afterKick_start {element : Bytes} :
    afterKick access element (osEventFlagsSetStart deque.events access.kicks) =
      .kick access element .fetchOr := by
  have valid : osIsResourceValid deque.events.marker rtosEventflagsMarker = .osOK := by
    rw [deque.made]
    rfl
  have start : osEventFlagsSetStart deque.events access.kicks = .inl .fetchOr := by
    rw [osEventFlagsSetStart, if_neg, if_neg (not_not_intro valid)]
    rw [DequeAccess.kicks]
    cases access.puts with
    | _ => decide
  rw [start]
  rfl

theorem waits_afterKick {element : Bytes} (puts : Bool) (result : SetPlace ⊕ Word) :
    (afterKick access element result).waits puts = false ∧
      (afterKick access element result).resets = false := by
  cases result with
  | _ => exact ⟨rfl, rfl⟩

theorem waits_afterWait (puts : Bool) (result : Option Word) :
    (afterWait deque access (.inr result)).waits puts = false ∧
      (afterWait deque access (.inr result)).resets = false := by
  cases result with
  | none => exact ⟨rfl, rfl⟩
  | some flags =>
      simp only [afterWait]
      split
      · exact ⟨rfl, rfl⟩
      · cases osEventFlagsClearStart deque.events access.awaits with
        | inl place => exact ⟨rfl, rfl⟩
        | inr flags =>
            simp only [afterClear]
            split
            · exact ⟨rfl, rfl⟩
            · split
              · exact ⟨rfl, rfl⟩
              · exact ⟨rfl, rfl⟩

theorem puts_of_waits {puts : Bool} {place : WaitPlace access.wish}
    (waits : (DequePlace.wait access place).waits puts) : (access.puts == puts) = true := by
  cases place with
  | enter => exact waits
  | load => exact waits
  | wait expected => exact waits
  | leave exit => cases waits
  | consume => cases waits

theorem start_of_wait :
    (∃ place, afterWait deque access (osEventFlagsWaitStart deque.events access.wish access.timeout
        access.context) = .wait access place) ∨
      ∃ result, afterWait deque access (osEventFlagsWaitStart deque.events access.wish access.timeout
        access.context) = afterWait deque access (.inr result) := by
  cases osEventFlagsWaitStart deque.events access.wish access.timeout access.context with
  | inl place => exact Or.inl ⟨place, rfl⟩
  | inr result => exact Or.inr ⟨result, rfl⟩

theorem waits_dequeAccessStart (deque : RtosDeque) (access : DequeAccess) (puts : Bool) :
    (dequeAccessStart deque access).waits puts = false ∧
      (dequeAccessStart deque access).resets = false := by
  unfold dequeAccessStart
  split
  · exact ⟨rfl, rfl⟩
  · split
    · exact ⟨rfl, rfl⟩
    · cases osEventFlagsGetStart deque.events with
      | inl place => exact ⟨rfl, rfl⟩
      | inr flags =>
          simp only [afterCheck]
          split
          · split
            · exact ⟨rfl, rfl⟩
            · exact ⟨rfl, rfl⟩
          · exact ⟨rfl, rfl⟩

end DequePlace

theorem DequeTurn.quiet {place after : DequePlace} (tells : ∀ puts, place.tells puts → after.tells puts)
    (looks : ∀ puts, place.looks puts → after.looks puts)
    (waits : ∀ puts, after.waits puts → place.waits puts) :
    DequeTurn deque flags data place flags data after :=
  .goesOn (fun _ => id) (fun puts is => Or.inl (tells puts is)) looks waits

structure Turns (deque : RtosDeque) (shared : Shared Word Word DequeData DequePlace) (index : Nat)
    (place : DequePlace) (next : Shared Word Word DequeData DequePlace) (after : DequePlace) : Prop where
  places : next.places = shared.places.set index after
  turn : DequeTurn deque (shared.memory deque.events.flags) shared.data place
    (next.memory deque.events.flags) next.data after
  announces : Announces (next.memory deque.events.flags)
  resets : after.resets = false

variable {shared next : Shared Word Word DequeData DequePlace} {index : Nat} {answer : Result}

theorem turns_of_other {place : DequePlace} {address : Word} {act : Word → Word × DequePlace}
    (announces : Announces (shared.memory deque.events.flags))
    (other : address ≠ deque.events.flags)
    (turn : ∀ value, DequeTurn deque (shared.memory deque.events.flags) shared.data place
      (shared.memory deque.events.flags) shared.data (act value).2 ∧ (act value).2.resets = false) :
    ∃ after, Turns deque shared index place
      (Program.perform shared index answer (.word address act : ThreadOp DequeData DequePlace)) after := by
  have stays : (Program.perform shared index answer (.word address act :
      ThreadOp DequeData DequePlace)).memory deque.events.flags = shared.memory deque.events.flags :=
    Function.update_of_ne (Ne.symm other) _ _
  obtain ⟨turn, resets⟩ := turn (shared.memory address)
  refine ⟨_, rfl, ?_, ?_, resets⟩
  · rw [stays]
    exact turn
  · rw [stays]
    exact announces

theorem turns_of_flags {place : DequePlace} {act : Word → Word × DequePlace}
    (turn : DequeTurn deque (shared.memory deque.events.flags) shared.data place
      (act (shared.memory deque.events.flags)).1 shared.data (act (shared.memory deque.events.flags)).2)
    (announces : Announces (act (shared.memory deque.events.flags)).1)
    (resets : (act (shared.memory deque.events.flags)).2.resets = false) :
    ∃ after, Turns deque shared index place
      (Program.perform shared index answer (.word deque.events.flags act :
        ThreadOp DequeData DequePlace)) after := by
  have value : (Program.perform shared index answer (.word deque.events.flags act :
      ThreadOp DequeData DequePlace)).memory deque.events.flags =
        (act (shared.memory deque.events.flags)).1 := Function.update_self _ _ _
  refine ⟨_, rfl, ?_, ?_, resets⟩
  · rw [value]
    exact turn
  · rw [value]
    exact announces

theorem turns_of_data {place after : DequePlace} {act : DequeData → DequeData × DequePlace}
    (acts : act shared.data = (data, after))
    (announces : Announces (shared.memory deque.events.flags))
    (turn : DequeTurn deque (shared.memory deque.events.flags) shared.data place
      (shared.memory deque.events.flags) data after)
    (resets : after.resets = false) :
    ∃ after, Turns deque shared index place
      (Program.perform shared index answer (.data act : ThreadOp DequeData DequePlace)) after := by
  have performed : Program.perform shared index answer (.data act : ThreadOp DequeData DequePlace) =
      ⟨shared.memory, data, shared.places.set index after⟩ := by
    simp only [Program.perform, acts]
  rw [performed]
  exact ⟨after, rfl, turn, announces, resets⟩

/-- The steps of the wait leave the flags, and lead from the wait to the clearing of the flag. -/
theorem turns_of_wait {access : DequeAccess} (place : WaitPlace access.wish)
    (announces : Announces (shared.memory deque.events.flags)) :
    ∃ after, Turns deque shared index (.wait access place)
      (Program.perform shared index answer
        ((osEventFlagsWait deque.events access.wish access.timeout place).map
          (DequePlace.afterWait deque access))) after := by
  cases place with
  | enter =>
      refine turns_of_other announces (Ne.symm deque.events.apart) fun value => ⟨?_, rfl⟩
      exact .quiet nofun nofun fun _ => id
  | load =>
      refine turns_of_flags (.quiet nofun nofun ?_) announces rfl
      exact fun puts => DequePlace.puts_of_waits
  | leave exit =>
      refine turns_of_other announces (Ne.symm deque.events.apart) fun value => ?_
      have gives : exit = .consume ∨
          ∃ result, (exit.next : WaitPlace access.wish ⊕ Option Word) = .inr result := by
        cases exit with
        | consume => exact Or.inl rfl
        | _ => exact Or.inr ⟨_, rfl⟩
      rcases gives with rfl | ⟨result, gives⟩
      · exact ⟨.quiet nofun (fun _ => id) nofun, rfl⟩
      · simp only [gives]
        obtain ⟨_, resets⟩ := @DequePlace.waits_afterWait deque access false result
        refine ⟨.quiet nofun ?_ fun puts waits => ?_, resets⟩
        · intro puts looks
          cases exit with
          | consume => cases gives
          | _ => cases looks
        · rw [(DequePlace.waits_afterWait puts result).1] at waits
          cases waits
  | consume =>
      have kept : shared.memory deque.events.flags &&& access.wish.clear =
          shared.memory deque.events.flags := by
        have keeps : ¬osFlagsNoClear &&& osFlagsNoClear = 0 := by decide
        have all : access.wish.clear = 0xffffffff :=
          if_neg (ne_true_of_eq_false (decide_eq_false keeps))
        rw [all]
        exact BitVec.and_allOnes
      have goes := @DequePlace.afterWait_consumed deque _ access announces
      refine turns_of_flags ?_ (announces.and _) ?_
      · simp only [kept, goes]
        exact .quiet nofun (fun _ => id) nofun
      · simp only [goes]
        rfl
  | wait expected =>
      refine ⟨_, rfl, ?_, announces, rfl⟩
      exact .quiet nofun nofun fun puts => DequePlace.puts_of_waits

theorem turns_of_step (announces : Announces (shared.memory deque.events.flags))
    (noReset : ∀ place ∈ shared.places, place.resets = false)
    (moved : (dequeProgram deque).step shared (.act index answer) = some next) :
    ∃ place after, shared.places[index]? = some place ∧ Turns deque shared index place next after := by
  obtain ⟨place, op, found, isNext, rfl⟩ := Program.step_act moved
  have noReset := noReset place (List.mem_of_getElem? found)
  refine ⟨place, ?_⟩
  suffices turns : ∃ after, Turns deque shared index place
      (Program.perform shared index answer op) after by
    obtain ⟨after, turns⟩ := turns
    exact ⟨after, found, turns⟩
  have others := deque.apart.1
  cases place with
  | check access =>
      cases isNext
      have goes := @DequePlace.afterCheck_inr _ access announces
      refine turns_of_flags ?_ announces ?_
      · simp only [goes]
        exact .quiet nofun (fun _ => id) nofun
      · simp only [goes]
        rfl
  | arrive access =>
      cases isNext
      refine turns_of_other announces others fun value => ⟨?_, rfl⟩
      exact .quiet nofun (fun _ => id) nofun
  | look access =>
      cases isNext
      by_cases blocked : deque.blocks access shared.data
      · refine turns_of_data (if_pos blocked) announces (.blocks rfl blocked ?_) ?_
        · intro puts other
          rcases @DequePlace.start_of_wait deque access with ⟨place, start⟩ | ⟨result, start⟩
          · rw [start]
            apply Bool.eq_false_of_not_eq_true
            intro waits
            exact other (eq_of_beq (DequePlace.puts_of_waits waits))
          · rw [start]
            exact (DequePlace.waits_afterWait puts result).1
        · rcases @DequePlace.start_of_wait deque access with ⟨place, start⟩ | ⟨result, start⟩
          · rw [start]
            rfl
          · rw [start]
            exact (DequePlace.waits_afterWait false result).2
      · have free := Bool.eq_false_of_not_eq_true blocked
        exact turns_of_data (if_neg blocked) announces (.transfer rfl free) rfl
  | wait access place =>
      cases isNext
      exact turns_of_wait place announces
  | clear access =>
      cases isNext
      have goes := @DequePlace.afterClear_inr _ access announces
      refine turns_of_flags ?_ (announces.and _) ?_
      · simp only [goes]
        exact .clears rfl
      · simp only [goes]
        rfl
  | leave access status =>
      cases isNext
      refine turns_of_other announces others fun value => ⟨?_, rfl⟩
      exact .quiet nofun nofun nofun
  | finish access element =>
      cases isNext
      have goes := @DequePlace.afterKick_start deque access element
      refine turns_of_other announces others fun value => ?_
      simp only [goes]
      exact ⟨.quiet (fun _ => id) nofun nofun, rfl⟩
  | kick access element place =>
      cases isNext
      cases place with
      | fetchOr =>
          have kicks : access.kicks = dequeFlag (!access.puts) := by
            rw [DequeAccess.kicks, dequeFlag]
            cases access.puts with
            | _ => rfl
          refine turns_of_flags (.goesOn ?_ ?_ nofun ?_) ?_ ?_
          · exact fun puts on => or_and_ne_zero on _
          · intro puts tells
            obtain rfl : puts = !access.puts := Bool.eq_not.mpr (Ne.symm (bne_iff_ne.mp tells))
            rw [kicks]
            exact Or.inr (or_dequeFlag _)
          · intro puts waits
            rw [(DequePlace.waits_afterKick puts _).1] at waits
            cases waits
          · rw [kicks]
            exact announces.or _
          · exact (DequePlace.waits_afterKick false _).2
      | wake prevFlags =>
          refine ⟨_, rfl, ?_, announces, rfl⟩
          exact .quiet nofun nofun nofun
  | done access element status => cases isNext
  | threadExit => cases isNext
  | resetDone status => cases isNext
  | _ => cases noReset

end Turns

/-- The calls are those of a queue, only its flags are set, and what there is to put or get will be
found. -/
structure Attended (deque : RtosDeque) (initial : Bytes)
    (shared : Shared Word Word DequeData DequePlace) : Prop where
  sequential : Sequential deque initial (DequeSection.fifo (deque.size - 1)) shared.data shared.places
  isFifo : ∀ place ∈ shared.places, ∀ access ∈ place.access, access.isFifo
  noReset : ∀ place ∈ shared.places, place.resets = false
  announces : Announces (shared.memory deque.events.flags)
  foreseen : ∀ puts, Foreseen deque puts (shared.memory deque.events.flags &&& dequeFlag puts ≠ 0)
    shared.data shared.places

section Invariant

variable {deque : RtosDeque} {initial : Bytes} {shared next : Shared Word Word DequeData DequePlace}
  {move : Move Result (Context × DequeCall)}

theorem fifo_of_keeps (keeps : KeepsAnnouncements deque shared move) : CallsFifo move := by
  cases move with
  | act index answer => trivial
  | call entry =>
      obtain ⟨context, call⟩ := entry
      cases context with
      | handler => exact keeps.elim
      | thread =>
          cases call with
          | osDequePutBack element timeout => trivial
          | osDequeGetFront element timeout => trivial
          | _ => exact keeps.elim

theorem Foreseen.turn {data after : DequeData} {before flags : Word} {places : List DequePlace}
    {index : Nat} {place moved : DequePlace} {puts : Bool}
    (foreseen : Foreseen deque puts (before &&& dequeFlag puts ≠ 0) data places)
    (bounded : deque.Bounded initial data) (isFifo : ∀ access ∈ place.access, access.isFifo)
    (found : places[index]? = some place)
    (keeps : ∀ access, place = .clear access → Foreseen deque access.puts False data places)
    (turn : DequeTurn deque before data place flags after moved) :
    Foreseen deque puts (flags &&& dequeFlag puts ≠ 0) after (places.set index moved) := by
  cases turn with
  | goesOn stays tells looks waits =>
      refine foreseen.move found (stays puts) (tells puts) ?_ (waits puts)
      apply Nat.add_le_add_left
      apply Bool.toNat_le_toNat
      exact looks puts
  | @blocks access after isLook blocked others =>
      subst isLook
      by_cases own : access.puts = puts
      · subst own
        refine Or.inr (Or.inr (Or.inl ?_))
        rw [(supply_eq_zero bounded).mpr blocked]
        exact Nat.zero_le _
      · have notLooks : (DequePlace.look access).looks puts = false := beq_false_of_ne own
        refine foreseen.move found id nofun ?_ ?_
        · rw [notLooks]
          exact Nat.add_le_add_left (Nat.zero_le _) _
        · rw [others puts own]
          exact nofun
  | @transfer access isLook free =>
      subst isLook
      have own := isFifo access rfl
      by_cases same : access.puts = puts
      · subst same
        have looks : (DequePlace.look access).looks access.puts = true := beq_self_eq_true _
        have taken := supply_transfer bounded free own
        refine foreseen.move found id nofun ?_ nofun
        rw [looks, Bool.toNat_true]
        omega
      · exact Foreseen.of_tells (List.getElem?_eq_some_iff.mp found).1 (bne_iff_ne.mpr same)
  | @clears access isClear =>
      subst isClear
      by_cases own : access.puts = puts
      · subst own
        exact (keeps access rfl).move found False.elim nofun (Nat.le_refl _) nofun
      · refine foreseen.move found (fun on => ?_) nofun (Nat.le_refl _) nofun
        rw [← and_dequeFlag own] at on
        exact on

theorem Attended.step (attended : Attended deque initial shared)
    (keeps : KeepsAnnouncements deque shared move)
    (moved : (dequeProgram deque).step shared move = some next) : Attended deque initial next := by
  obtain ⟨sequential, isFifo⟩ :=
    attended.sequential.step_fifo attended.isFifo (fifo_of_keeps keeps) moved
  cases move with
  | call entry =>
      obtain rfl := Option.some_inj.mp moved
      have new : ∀ puts, ((dequeProgram deque).enter entry).waits puts = false ∧
          ((dequeProgram deque).enter entry).resets = false := by
        intro puts
        obtain ⟨context, call⟩ := entry
        cases call with
        | osDequeReset =>
            cases context with
            | _ => exact keeps.elim
        | _ => exact DequePlace.waits_dequeAccessStart _ _ _
      refine ⟨sequential, isFifo, ?_, attended.announces, fun puts => ?_⟩
      · intro place member
        rcases List.mem_append.mp member with old | isNew
        · exact attended.noReset place old
        · rw [List.mem_singleton.mp isNew]
          exact (new false).2
      · exact (attended.foreseen puts).call (new puts).1
  | act index answer =>
      obtain ⟨place, after, found, turns⟩ := turns_of_step attended.announces attended.noReset moved
      have member := List.mem_of_getElem? found
      refine ⟨sequential, isFifo, ?_, turns.announces, fun puts => ?_⟩
      · intro other isThere
        rw [turns.places] at isThere
        rcases List.mem_or_eq_of_mem_set isThere with old | rfl
        · exact attended.noReset other old
        · exact turns.resets
      · rw [turns.places]
        refine (attended.foreseen puts).turn attended.sequential.bounded
          (attended.isFifo place member) found ?_ turns.turn
        rintro access rfl
        exact keeps _ found

end Invariant

namespace DequePlace

def wishes (flags : Word) : DequePlace → Bool
  | .wait access _ => access.wish.satisfied flags
  | _ => false

/-- The call is between its `atomic_fetch_or` and its wake. -/
def wakes : DequePlace → Bool
  | .kick _ _ (.wake _) | .resetSet (.wake _) => true
  | _ => false

def missed : DequePlace → Bool
  | .done _ _ status | .resetDone status => decide (status = osFlagsError)
  | _ => false

end DequePlace

section Words

variable {deque : RtosDeque}

theorem wait_of_dequeOp {place : DequePlace} {futex expected ticks : Word}
    {resume : Result → DequePlace}
    (isNext : dequeOp deque place = some (.service (.wait futex expected ticks) resume)) :
    ∃ access found, place = .wait access (.wait found) ∧ expected = (found : Word) := by
  cases place with
  | wait access place =>
      cases place with
      | wait found =>
          cases isNext
          exact ⟨access, found, rfl, rfl⟩
      | _ => cases isNext
  | kick access element place | resetSet place =>
      cases place with
      | _ => cases isNext
  | _ => cases isNext

theorem flag_of_unwished {access : DequeAccess} {flags : Word}
    (unwished : access.wish.satisfied flags = false) : flags &&& dequeFlag access.puts = 0 := by
  have waitsAny : ¬osFlagsNoClear &&& osFlagsWaitAll ≠ 0 := by decide
  have any : access.wish.satisfied flags = decide (flags &&& access.wish.flags ≠ 0) :=
    if_neg (ne_true_of_eq_false (decide_eq_false waitsAny))
  have none_ : flags &&& (dequeFlag access.puts ||| rtosDequeReset) = 0 :=
    Decidable.not_not.mp (of_decide_eq_false (any.symm.trans unwished))
  have part : (dequeFlag access.puts ||| rtosDequeReset) &&& dequeFlag access.puts =
      dequeFlag access.puts := by
    cases access.puts with
    | _ => decide
  rw [← part, ← BitVec.and_assoc, none_]
  exact BitVec.zero_and

theorem idle_of_wait {place : DequePlace} (atWait : (dequeOp deque place).isSome →
    ∃ access found, place = .wait access (.wait found)) (puts : Bool) :
    place.looks puts = false ∧ place.tells puts = false := by
  cases place with
  | check access | arrive access | look access | clear access =>
      obtain ⟨_, _, isWait⟩ := atWait rfl
      cases isWait
  | finish access element =>
      obtain ⟨_, _, isWait⟩ := atWait rfl
      cases isWait
  | kick access element place =>
      obtain ⟨_, _, isWait⟩ := atWait rfl
      cases isWait
  | wait access place =>
      obtain ⟨_, _, isWait⟩ := atWait rfl
      cases isWait
      exact ⟨rfl, rfl⟩
  | _ => exact ⟨rfl, rfl⟩

theorem announcing_deque (deque : RtosDeque) :
    Announcing (dequeProgram deque) deque.events.futex deque.events.flags
      (fun place flags => place.wishes flags) DequePlace.wakes DequePlace.missed := by
  constructor
  · intro place expected ticks resume isNext
    obtain ⟨access, found, rfl, rfl⟩ := wait_of_dequeOp isNext
    exact found.property
  · intro place act isNext value
    have less : ∀ (mask : Word) (other : DequePlace),
        other.wishes (value &&& mask) → other.wishes value := by
      intro mask other holds
      cases other with
      | wait access inner => exact FlagsWish.satisfied_of_and holds
      | _ => exact holds
    have other : ∀ {act : Word → Word × DequePlace},
        some (.word deque.waiters act : ThreadOp DequeData DequePlace) ≠
          some (.word deque.events.flags act) :=
      fun same => deque.apart.1 (Op.word.inj (Option.some_inj.mp same)).1
    cases place with
    | check access =>
        cases isNext
        exact Or.inr fun _ => id
    | clear access | resetClear =>
        cases isNext
        exact Or.inr (less _)
    | wait access place =>
        obtain ⟨mask, masks⟩ := masks_of_osEventFlagsWait (Option.some_inj.mp isNext)
        refine Or.inr fun other holds => ?_
        rw [masks] at holds
        exact less mask other holds
    | kick access element place | resetSet place =>
        rcases wakes_of_osEventFlagsSet (Option.some_inj.mp isNext) value with ⟨_, goes⟩ | same
        · rw [goes]
          exact Or.inl rfl
        · refine Or.inr fun other holds => ?_
          rwa [same] at holds
    | arrive access | leave access status | finish access element | resetDrain =>
        exact (deque.apart.1 (Op.word.inj (Option.some_inj.mp isNext)).1).elim
    | _ => cases isNext
  · intro place wakes
    cases place with
    | kick access element place =>
        cases place with
        | fetchOr => cases wakes
        | wake prevFlags =>
            refine ⟨_, rfl, fun status fails => ?_⟩
            simp only [fails, if_true]
            rfl
    | resetSet place =>
        cases place with
        | fetchOr => cases wakes
        | wake prevFlags =>
            refine ⟨_, rfl, fun status fails => ?_⟩
            simp only [fails, if_true]
            rfl
    | _ => cases wakes
  · intro place missed
    cases place with
    | done access element status => rfl
    | resetDone status => rfl
    | _ => cases missed
  · intro place value flags resume isNext
    cases place with
    | wait access place =>
        cases place with
        | _ => cases isNext
    | kick access element place | resetSet place =>
        cases place with
        | _ => cases isNext
    | _ => cases isNext

end Words

section Runs

variable {cores : Nat} [NeZero cores] {deque : RtosDeque} {stale : Word} {memory : Bytes}
  {machine : Machine cores DequeData DequePlace}

abbrev dequeAlone (cores : Nat) [NeZero cores] (deque : RtosDeque) (stale : Word)
    (memory : Bytes) : System (Machine cores DequeData DequePlace) (Label cores DequeCall) :=
  aloneSystem (dequeProgram deque) deque.cells (deque.initialMemory stale) (deque.initialData memory)
    deque.events.futex deque.events.flags

/-- At rest, nobody waits to get while there are elements, and nobody waits to put while there is room. -/
def LosesNoDequeWake (deque : RtosDeque) (machine : Machine cores DequeData DequePlace) : Prop :=
  Resting (dequeProgram deque) deque.events.futex machine →
    ∀ call ∈ machine.calls, (dequeOp deque call.place).isSome →
      ∀ access ∈ call.place.access, deque.blocks access machine.data

theorem attended_of_guarded
    (reached : (dequeAlone cores deque stale memory).Guarded
      (Machine.Meets (dequeProgram deque) deque.cells (KeepsAnnouncements deque)) machine) :
    Attended deque memory (machine.shared deque.cells) := by
  refine invariant_of_machine (Attended deque memory) (confined_dequeProgram deque) ?_
    (fun _ _ _ attended keeps moved => attended.step keeps moved) (machine_of_alone reached)
  refine ⟨Sequential.init deque memory, List.forall_mem_nil _, List.forall_mem_nil _, ?_, fun puts => ?_⟩
  · simp only [RtosDeque.initialMemory, Ne.symm deque.apart.1, if_false, ite_self]
    rfl
  · exact Or.inr (Or.inr (Or.inr rfl))

theorem task_of_guarded
    (reached : (dequeAlone cores deque stale memory).Guarded
      (Machine.Meets (dequeProgram deque) deque.cells (KeepsAnnouncements deque)) machine) :
    ∀ call ∈ machine.calls, ∃ task, call.owner = .task task := by
  induction reached with
  | start begins =>
      rw [begins.1.calls]
      exact List.forall_mem_nil _
  | @step machine label next _ meets moved ih =>
      have moved := (Option.ite_none_right_eq_some.mp moved).2
      intro call member
      cases label with
      | kernel action =>
          rw [(Machine.calling_of_kernel moved).2.2.1] at member
          exact ih call member
      | call core entry =>
          obtain ⟨caller, _, _, rfl⟩ := Machine.calls_of_call moved
          rcases List.mem_append.mp member with old | isNew
          · exact ih call old
          · exact ⟨caller, by rw [List.mem_singleton.mp isNew]⟩
      | interrupt core entry => exact meets.elim
      | act core index =>
          obtain ⟨acting, moving, found, _, calls, _, owner⟩ := Machine.calls_of_act moved
          rw [calls] at member
          rcases List.mem_or_eq_of_mem_set member with old | rfl
          · exact ih call old
          · rw [owner]
            exact ih acting (List.mem_of_getElem? found)

/-- As long as no call clears a flag that another one needs, no wakeup is lost. -/
theorem losesNoDequeWake_of_guarded
    (reached : (dequeAlone cores deque stale memory).Guarded
      (Machine.Meets (dequeProgram deque) deque.cells (KeepsAnnouncements deque)) machine) :
    LosesNoDequeWake deque machine := by
  intro resting call member unfinished access isIt
  have attended := attended_of_guarded reached
  have isFlags : deque.cells deque.events.flags := by simp [RtosDeque.cells]
  have announced := announced_of_alone (announcing_deque deque) (confined_dequeProgram deque)
    isFlags reached
  have atWait : ∀ call ∈ machine.calls, (dequeOp deque call.place).isSome → ∃ access found,
      call.place = .wait access (.wait found) ∧
        call.place.wishes (machine.kernel.memory deque.events.flags) = false := by
    intro call member unfinished
    obtain ⟨_, _, _, isNext, unwished⟩ := announced.of_resting (announcing_deque deque) resting
      (task_of_guarded reached) member unfinished
    obtain ⟨access, found, isWait, _⟩ := wait_of_dequeOp isNext
    exact ⟨access, found, isWait, unwished⟩
  have idle : ∀ place ∈ machine.calls.map Call.place,
      place.looks access.puts = false ∧ place.tells access.puts = false := by
    intro place isThere
    obtain ⟨other, isCall, rfl⟩ := List.mem_map.mp isThere
    apply @idle_of_wait deque
    intro goesOn
    obtain ⟨access, found, isWait, _⟩ := atWait other isCall goesOn
    exact ⟨access, found, isWait⟩
  obtain ⟨own, found, isWait, unwished⟩ := atWait call member unfinished
  rw [isWait] at isIt unwished
  obtain rfl : own = access := Option.some_inj.mp isIt
  apply (supply_eq_zero attended.sequential.bounded).mp
  rcases attended.foreseen own.puts with isSet | tells | looks | nobody
  · rw [Machine.memory_shared isFlags] at isSet
    exact (isSet (flag_of_unwished unwished)).elim
  · obtain ⟨place, isThere, tells⟩ := List.countP_pos_iff.mp tells
    rw [(idle place isThere).2] at tells
    cases tells
  · have none_ : (machine.calls.map Call.place).countP (DequePlace.looks own.puts) = 0 :=
      List.countP_eq_zero.mpr fun place isThere => ne_true_of_eq_false (idle place isThere).1
    exact Nat.le_zero.mp (none_ ▸ looks)
  · have waits := List.countP_eq_zero.mp nobody call.place (List.mem_map_of_mem member)
    rw [isWait] at waits
    exact (waits (beq_self_eq_true _)).elim

end Runs

theorem unfinished_of_any {deque : RtosDeque} {machine : Machine 1 DequeData DequePlace}
    {index : Nat} (found : machine.calls[index]?.any fun call =>
      (dequeOp deque call.place).isSome && call.place.access.any fun access => !access.puts) :
    ∃ call ∈ machine.calls, (dequeOp deque call.place).isSome ∧
      ∃ access ∈ call.place.access, access.puts = false := by
  obtain ⟨call, isThere, found⟩ := (Option.any_eq_true _ _).mp found
  obtain ⟨unfinished, found⟩ := (Bool.and_eq_true _ _).mp found
  obtain ⟨access, isIt, gets⟩ := (Option.any_eq_true _ _).mp found
  exact ⟨call, List.mem_of_getElem? isThere, unfinished, access, isIt, (Bool.not_eq_eq_eq_not.mp gets)⟩

theorem losesNoDequeWake_of_guarded_empty :
    ∃ machine : Machine 1 DequeData DequePlace,
      Resting (dequeProgram fourSlots) fourSlots.events.futex machine ∧
        machine.kernel.queue (.waiters fourSlots.events.futex) = [0x2000] ∧
        RtosDeque.isEmpty machine.data := by
  obtain ⟨machine, reached, only, calling, gets, queue, noWake⟩ := exists_alone
    (dequeProgram fourSlots)
    (Machine.Meets (dequeProgram fourSlots) fourSlots.cells (KeepsAnnouncements fourSlots))
    [fourSlots.events.flags, fourSlots.events.waiters, fourSlots.waiters]
    (fourSlots.initialMemory 0) (fourSlots.initialData fun _ => 0) fourSlots.events.futex
    fourSlots.events.flags (oneRunner ++ [.futexInit 0x200 0x204 0])
    (List.flatten [[.call 0 (.osDequeGetFront (fun _ => 0) osWaitForever)],
      List.replicate 6 (.act 0 0), switchPass.map .kernel,
      [.call 0 (.osDequePutBack (fun _ => 7) osWaitForever)], List.replicate 6 (.act 0 1),
      switchPass.map .kernel, List.replicate 9 (.act 0 0),
      [.call 0 (.osDequeGetFront (fun _ => 0) osWaitForever)], List.replicate 6 (.act 0 2)])
    (fun machine =>
      (machine.calls.zipIdx.all fun entry =>
        !(dequeOp fourSlots entry.1.place).isSome || decide (entry.2 = 2)) ∧
      machine.calling 0x2000 = some 2 ∧
      (machine.calls[2]?.any fun call => (dequeOp fourSlots call.place).isSome &&
        call.place.access.any fun access => !access.puts) ∧
      machine.kernel.queue (.waiters fourSlots.events.futex) = [0x2000] ∧
      ¬machine.kernel.Asked fourSlots.events.futex) (by decide)
  have resting : Resting (dequeProgram fourSlots) fourSlots.events.futex machine :=
    Resting.of_one only calling queue noWake
  obtain ⟨call, member, unfinished, access, isIt, getting⟩ := unfinished_of_any gets
  have blocks := losesNoDequeWake_of_guarded reached resting call member unfinished access isIt
  rw [RtosDeque.blocks, getting] at blocks
  exact ⟨machine, resting, queue, blocks⟩

/-- Two threads wait to get, and a more urgent one puts two elements: the first thread clears the flag and
gets one of them, the second finds no flag and waits for the other one. -/
theorem not_losesNoDequeWake :
    ¬∀ machine : Machine 1 DequeData DequePlace,
      (dequeAlone 1 fourSlots 0 fun _ => 0).Guarded
        (Machine.Meets (dequeProgram fourSlots) fourSlots.cells fun _ move => OnlyForever move)
        machine → LosesNoDequeWake fourSlots machine := by
  intro never
  obtain ⟨machine, reached, only, calling, gets, queue, noWake, some_⟩ := exists_alone
    (dequeProgram fourSlots)
    (Machine.Meets (dequeProgram fourSlots) fourSlots.cells fun _ move => OnlyForever move)
    [fourSlots.events.flags, fourSlots.events.waiters, fourSlots.waiters]
    (fourSlots.initialMemory 0) (fourSlots.initialData fun _ => 0) fourSlots.events.futex
    fourSlots.events.flags
    ([.create 0 0x1000 { flags := schedulerPrimordialTask, priority := 33 },
      .create 0 0x2000 { priority := 32 }, .create 0 0x3000 { priority := 32 }, .start 0] ++
      switchPass ++ [.futexInit 0x200 0x204 0])
    (List.flatten [[.call 0 (.osDequeGetFront (fun _ => 0) osWaitForever)],
      List.replicate 6 (.act 0 0), switchPass.map .kernel,
      [.call 0 (.osDequeGetFront (fun _ => 0) osWaitForever)], List.replicate 6 (.act 0 1),
      switchPass.map .kernel, [.kernel (.create 0 0x4000 { priority := 31 })],
      switchPass.map .kernel, [.call 0 (.osDequePutBack (fun _ => 7) osWaitForever)],
      List.replicate 6 (.act 0 2), switchPass.map .kernel,
      [.call 0 (.osDequePutBack (fun _ => 8) osWaitForever)], List.replicate 5 (.act 0 3),
      (.suspend 0 0 :: switchPass).map .kernel, List.replicate 9 (.act 0 0),
      (.suspend 0 0 :: switchPass).map .kernel, List.replicate 3 (.act 0 1)])
    (fun machine =>
      (machine.calls.zipIdx.all fun entry =>
        !(dequeOp fourSlots entry.1.place).isSome || decide (entry.2 = 1)) ∧
      machine.calling 0x3000 = some 1 ∧
      (machine.calls[1]?.any fun call => (dequeOp fourSlots call.place).isSome &&
        call.place.access.any fun access => !access.puts) ∧
      machine.kernel.queue (.waiters fourSlots.events.futex) = [0x3000] ∧
      ¬machine.kernel.Asked fourSlots.events.futex ∧
      RtosDeque.isEmpty machine.data = false) (by decide +kernel)
  have resting : Resting (dequeProgram fourSlots) fourSlots.events.futex machine :=
    Resting.of_one only calling queue noWake
  obtain ⟨call, member, unfinished, access, isIt, getting⟩ := unfinished_of_any gets
  have blocks := never machine reached resting call member unfinished access isIt
  rw [RtosDeque.blocks, getting, if_neg Bool.false_ne_true, some_] at blocks
  cases blocks

end PicoToolkit
