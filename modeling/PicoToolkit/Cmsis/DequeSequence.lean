import PicoToolkit.Cmsis.DequeOrder

/-!
Runs of a deque: the critical sections in their order act on a sequence of elements.
-/

namespace PicoToolkit

open Memory Transition Interleaving

def DequeSection.fifo (capacity : Nat) (queue : List (List (BitVec 8))) :
    DequeSection → Option (List (List (BitVec 8)))
  | .put .back element => if queue.length < capacity then some (queue ++ [element]) else none
  | .get .front element => if queue.head? = some element then some queue.tail else none
  | .reset => some []
  | _ => none

def DequeAccess.transferred (deque : RtosDeque) (access : DequeAccess) (element : Bytes) :
    DequeSection :=
  if access.puts then .put access.side (deque.bytes access.element)
  else .get access.side (deque.bytes element)

namespace DequePlace

def access : DequePlace → Option DequeAccess
  | .check access | .arrive access | .look access | .wait access _ | .clear access | .leave access _
  | .finish access _ | .kick access _ _ | .done access _ _ => some access
  | _ => none

def performed (deque : RtosDeque) : DequePlace → Option DequeSection
  | .finish access element | .kick access element _ => some (access.transferred deque element)
  | .done access element status =>
      if status = OsStatus.osOK.code then some (access.transferred deque element) else none
  | .resetClear => some .reset
  | .resetDone status => if status = OsStatus.osOK.code then some .reset else none
  | _ => none

/-- The caller of a put has its bytes, that of a get those beyond the element; who gives up, has an
error to return. -/
def keeps (deque : RtosDeque) : DequePlace → Prop
  | .finish access element | .kick access element _ | .done access element _ =>
      (access.puts → element = access.element) ∧
        ∀ index, deque.elementSize.toNat ≤ index → element index = access.element index
  | .leave _ status => status ≠ OsStatus.osOK.code
  | _ => True

/-- A place at which a call has not been through its critical section, or has no part in it. -/
structure Idle (deque : RtosDeque) (whose : Option DequeAccess) (place : DequePlace) : Prop where
  performed : place.performed deque = none
  keeps : place.keeps deque
  access : place.access = none ∨ place.access = whose

theorem ne_osOK_of_failed {flags : Word} (fails : failed flags) : flags ≠ OsStatus.osOK.code := by
  rintro rfl
  exact absurd fails (by decide)

theorem Idle.resetDone {deque : RtosDeque} {whose : Option DequeAccess} {status : Word}
    (error : status ≠ OsStatus.osOK.code) : (DequePlace.resetDone status).Idle deque whose :=
  ⟨if_neg error, trivial, Or.inl rfl⟩

theorem Idle.done {deque : RtosDeque} {access : DequeAccess} {status : Word}
    (error : status ≠ OsStatus.osOK.code) :
    (DequePlace.done access access.element status).Idle deque (some access) :=
  ⟨if_neg error, ⟨fun _ => rfl, fun _ _ => rfl⟩, Or.inr rfl⟩

section After

variable {deque : RtosDeque} {access : DequeAccess}

theorem idle_afterCheck (result : Unit ⊕ Word) :
    (afterCheck access result).Idle deque (some access) := by
  cases result with
  | inl place => exact ⟨rfl, trivial, Or.inr rfl⟩
  | inr flags =>
      simp only [afterCheck]
      split
      · rename_i some_
        split
        · exact Idle.done (by decide)
        · apply Idle.done
          rintro rfl
          exact absurd some_ (by decide)
      · exact ⟨rfl, trivial, Or.inr rfl⟩

theorem idle_afterClear (result : Unit ⊕ Word) :
    (afterClear access result).Idle deque (some access) := by
  cases result with
  | inl place => exact ⟨rfl, trivial, Or.inr rfl⟩
  | inr flags =>
      simp only [afterClear]
      split
      · rename_i fails
        exact ⟨rfl, ne_osOK_of_failed fails, Or.inr rfl⟩
      · split
        · exact ⟨rfl, (show OsStatus.osErrorResource.code ≠ _ by decide), Or.inr rfl⟩
        · exact ⟨rfl, trivial, Or.inr rfl⟩

theorem idle_afterWait (result : WaitPlace access.wish ⊕ Option Word) :
    (afterWait deque access result).Idle deque (some access) := by
  rcases result with place | _ | flags
  · exact ⟨rfl, trivial, Or.inr rfl⟩
  · exact ⟨rfl, trivial, Or.inl rfl⟩
  · simp only [afterWait]
    split
    · rename_i fails
      exact ⟨rfl, ne_osOK_of_failed fails, Or.inr rfl⟩
    · exact idle_afterClear _

theorem idle_afterResetSet {whose : Option DequeAccess} (result : SetPlace ⊕ Word) :
    (afterResetSet result).Idle deque whose := by
  cases result with
  | inl place => exact ⟨rfl, trivial, Or.inl rfl⟩
  | inr flags =>
      simp only [afterResetSet]
      split
      · rename_i fails
        exact Idle.resetDone (ne_osOK_of_failed fails)
      · exact ⟨rfl, trivial, Or.inl rfl⟩

theorem performed_afterResetClear (result : Unit ⊕ Word) :
    ((afterResetClear result).performed deque = none ∨
        (afterResetClear result).performed deque = some .reset) ∧
      (afterResetClear result).access = none ∧ (afterResetClear result).keeps deque := by
  cases result with
  | inl place => exact ⟨Or.inr rfl, rfl, trivial⟩
  | inr flags =>
      refine ⟨?_, rfl, trivial⟩
      simp only [afterResetClear, performed]
      by_cases isOK : (if failed flags then flags else OsStatus.osOK.code) = OsStatus.osOK.code
      · exact Or.inr (if_pos isOK)
      · exact Or.inl (if_neg isOK)

theorem performed_afterKick {element : Bytes} (result : SetPlace ⊕ Word) :
    ((afterKick access element result).performed deque = none ∨
        (afterKick access element result).performed deque =
          some (access.transferred deque element)) ∧
      (afterKick access element result).access = some access ∧
      ((DequePlace.finish access element).keeps deque →
        (afterKick access element result).keeps deque) := by
  cases result with
  | inl place => exact ⟨Or.inr rfl, rfl, id⟩
  | inr flags =>
      refine ⟨?_, rfl, id⟩
      simp only [afterKick, performed]
      by_cases isOK : (if failed flags then flags else OsStatus.osOK.code) = OsStatus.osOK.code
      · exact Or.inr (if_pos isOK)
      · exact Or.inl (if_neg isOK)

theorem idle_dequeAccessStart (deque : RtosDeque) (access : DequeAccess) :
    (dequeAccessStart deque access).Idle deque (some access) := by
  unfold dequeAccessStart
  split
  · rename_i invalid
    exact Idle.done (mt OsStatus.code_eq_osOK.mp invalid)
  · split
    · rename_i invalid
      exact Idle.done (mt OsStatus.code_eq_osOK.mp invalid)
    · exact idle_afterCheck _

end After

end DequePlace

open DequePlace

/-- What the next operation of a call does to the data: nothing, the critical section of the call, or a
reset. -/
inductive DequeEffect (deque : RtosDeque) (before : DequeData) (place : DequePlace) :
    DequeData → DequePlace → Prop
  | idle {after : DequePlace} : (place.keeps deque → after.Idle deque place.access) →
      DequeEffect deque before place before after
  | goesOn {done : DequeSection} {after : DequePlace} : place.performed deque = some done →
      (after.performed deque = none ∨ after.performed deque = some done) →
      after.access = place.access → (place.keeps deque → after.keeps deque) →
      DequeEffect deque before place before after
  | transfer {access : DequeAccess} : place = .look access → deque.blocks access before = false →
      DequeEffect deque before place (deque.transfer access before).1
        (.finish access (deque.transfer access before).2)
  | reset {after : DequePlace} : place.performed deque = none →
      (after.performed deque = none ∨ after.performed deque = some .reset) → after.access = none →
      after.keeps deque → DequeEffect deque before place (RtosDeque.resetPositions before) after

theorem DequeEffect.access {deque : RtosDeque} {before after : DequeData} {place moved : DequePlace}
    (effect : DequeEffect deque before place after moved) (kept : place.keeps deque) :
    moved.access = none ∨ moved.access = place.access := by
  cases effect with
  | idle idle => exact (idle kept).access
  | goesOn _ _ same _ => exact Or.inr same
  | transfer isLook _ => exact Or.inr (isLook ▸ rfl)
  | reset _ _ none_ _ => exact Or.inl none_

section Steps

variable {deque : RtosDeque} {shared next : Shared Word Word DequeData DequePlace} {index : Nat}
  {answer : Result}

theorem effect_of_map {Inner : Type} {place : DequePlace} {op : ThreadOp DequeData Inner}
    {outer : Inner → DequePlace} (notData : ∀ act, op ≠ .data act)
    (leads : ∀ result, DequeEffect deque shared.data place shared.data (outer result)) :
    ∃ after, (Program.perform shared index answer (op.map outer)).places =
        shared.places.set index after ∧
      DequeEffect deque shared.data place
        (Program.perform shared index answer (op.map outer)).data after := by
  cases op with
  | word address act => exact ⟨_, rfl, leads _⟩
  | data act => exact (notData act rfl).elim
  | service request resume => exact ⟨_, rfl, leads _⟩

theorem effect_of_step (moved : (dequeProgram deque).step shared (.act index answer) = some next) :
    ∃ place after, shared.places[index]? = some place ∧
      next.places = shared.places.set index after ∧
      DequeEffect deque shared.data place next.data after := by
  obtain ⟨place, op, found, isNext, rfl⟩ := Program.step_act moved
  refine ⟨place, ?_⟩
  suffices effect : ∃ after, (Program.perform shared index answer op).places =
      shared.places.set index after ∧
      DequeEffect deque shared.data place (Program.perform shared index answer op).data after by
    obtain ⟨after, places, effect⟩ := effect
    exact ⟨after, found, places, effect⟩
  cases place with
  | check access =>
      cases isNext
      refine effect_of_map (fun _ same => by cases same) fun result => ?_
      exact .idle fun _ => idle_afterCheck result
  | arrive access =>
      cases isNext
      exact ⟨_, rfl, .idle fun _ => ⟨rfl, trivial, Or.inr rfl⟩⟩
  | look access =>
      cases isNext
      refine ⟨_, rfl, ?_⟩
      simp only [Program.perform]
      cases blocked : deque.blocks access shared.data with
      | true => exact .idle fun _ => idle_afterWait _
      | false => exact .transfer rfl blocked
  | wait access place =>
      cases isNext
      refine effect_of_map ?_ fun result => .idle fun _ => idle_afterWait result
      cases place with
      | _ => exact fun _ same => by cases same
  | clear access =>
      cases isNext
      refine effect_of_map (fun _ same => by cases same) fun result => ?_
      exact .idle fun _ => idle_afterClear result
  | leave access status =>
      cases isNext
      exact ⟨_, rfl, .idle fun error => Idle.done error⟩
  | finish access element =>
      cases isNext
      obtain ⟨performed, whose, keeps⟩ := @performed_afterKick deque access element
        (osEventFlagsSetStart deque.events access.kicks)
      exact ⟨_, rfl, .goesOn rfl performed whose keeps⟩
  | kick access element place =>
      cases isNext
      refine effect_of_map ?_ fun result => ?_
      · cases place with
        | _ => exact fun _ same => by cases same
      · obtain ⟨performed, whose, keeps⟩ := @performed_afterKick deque access element result
        exact .goesOn rfl performed whose keeps
  | resetSet place =>
      cases isNext
      refine effect_of_map ?_ fun result => .idle fun _ => idle_afterResetSet result
      cases place with
      | _ => exact fun _ same => by cases same
  | resetDrain =>
      cases isNext
      refine ⟨_, rfl, .idle fun _ => ?_⟩
      split
      · exact ⟨rfl, trivial, Or.inl rfl⟩
      · exact ⟨rfl, trivial, Or.inl rfl⟩
  | resetPositions =>
      cases isNext
      obtain ⟨performed, none_, keeps⟩ := @performed_afterResetClear deque
        (osEventFlagsClearStart deque.events
          (rtosDequeReset ||| rtosDequeDataAvailable ||| rtosDequeSpaceAvailable))
      exact ⟨_, rfl, .reset rfl performed none_ keeps⟩
  | resetClear =>
      cases isNext
      refine effect_of_map (fun _ same => by cases same) fun result => ?_
      obtain ⟨performed, none_, keeps⟩ := @performed_afterResetClear deque result
      exact .goesOn rfl performed none_ fun _ => keeps
  | _ => cases isNext

end Steps

/-- The critical sections so far have made the sequence what the buffer holds; each call has had its own;
no copy has left the buffer, or the element of its caller. -/
structure Sequential (deque : RtosDeque) (initial : Bytes)
    (does : List (List (BitVec 8)) → DequeSection → Option (List (List (BitVec 8))))
    (data : DequeData) (places : List DequePlace) : Prop where
  bounded : deque.Bounded initial data
  refines : data.sections.foldlM does [] = some (deque.contents data)
  answered : ∀ done, places.countP (fun place => decide (place.performed deque = some done)) ≤
    data.sections.count done
  keeps : ∀ place ∈ places, place.keeps deque

section Invariant

variable {deque : RtosDeque} {initial : Bytes}
  {does : List (List (BitVec 8)) → DequeSection → Option (List (List (BitVec 8)))}
  {data after : DequeData} {places : List DequePlace}

theorem transfer_sections (access : DequeAccess) :
    (deque.transfer access data).1.sections =
      data.sections ++ [access.transferred deque (deque.transfer access data).2] := by
  obtain ⟨puts, side, element, timeout, context⟩ := access
  cases puts with
  | true =>
      cases side with
      | _ => rfl
  | false =>
      cases side with
      | _ => rfl

theorem Sequential.init (deque : RtosDeque) (initial : Bytes) :
    Sequential deque initial does (deque.initialData initial) [] := by
  have positive : 0 < deque.size := Nat.lt_of_lt_of_le Nat.zero_lt_two deque.atLeastTwo
  refine ⟨⟨positive, positive, List.forall_mem_nil _, fun _ _ => rfl⟩, ?_, fun _ => Nat.le_refl 0, List.forall_mem_nil _⟩
  exact congrArg some Circular.contents_self.symm

theorem Sequential.step (sequential : Sequential deque initial does data places) {index : Nat}
    {place moved : DequePlace} (found : places[index]? = some place)
    (effect : DequeEffect deque data place after moved)
    (resets : ∀ elements, does elements .reset = some [])
    (transfers : ∀ access, place = .look access → deque.blocks access data = false →
      does (deque.contents data) (access.transferred deque (deque.transfer access data).2) =
        some (deque.contents (deque.transfer access data).1)) :
    Sequential deque initial does after (places.set index moved) := by
  have kept := sequential.keeps place (List.mem_of_getElem? found)
  have counted := fun done => @countP_set _ places
    (fun place => decide (place.performed deque = some done)) _ _ found moved
  have keeps : moved.keeps deque → ∀ other ∈ places.set index moved, other.keeps deque := by
    intro own other member
    rcases List.mem_or_eq_of_mem_set member with old | rfl
    · exact sequential.keeps other old
    · exact own
  cases effect with
  | idle idle =>
      have idle := idle kept
      refine ⟨sequential.bounded, sequential.refines, fun done => ?_, keeps idle.keeps⟩
      have before := sequential.answered done
      have change := counted done
      simp only [idle.performed, reduceCtorEq, decide_false, Bool.toNat_false] at change
      omega
  | goesOn performed goes _ stays =>
      refine ⟨sequential.bounded, sequential.refines, fun done => ?_, keeps (stays kept)⟩
      have before := sequential.answered done
      have change := counted done
      rcases goes with none_ | same
      · simp only [none_, reduceCtorEq, decide_false, Bool.toNat_false] at change
        omega
      · rw [performed, same] at change
        omega
  | @transfer access isLook free =>
      refine ⟨sequential.bounded.transfer access, ?_, fun done => ?_,
        keeps (RtosDeque.transfer_element access)⟩
      · rw [transfer_sections, List.foldlM_append, sequential.refines]
        simpa using transfers access isLook free
      · have before := sequential.answered done
        have change := counted done
        rw [transfer_sections, List.count_append]
        subst isLook
        have nothing : (DequePlace.look access).performed deque = none := rfl
        have own : (DequePlace.finish access (deque.transfer access data).2).performed deque =
          some (access.transferred deque (deque.transfer access data).2) := rfl
        simp only [nothing, own, reduceCtorEq, decide_false, Bool.toNat_false, Option.some_inj]
          at change
        by_cases same : access.transferred deque (deque.transfer access data).2 = done
        · simp only [same, decide_true, Bool.toNat_true] at change
          rw [same, List.count_singleton_self]
          omega
        · simp only [same, decide_false, Bool.toNat_false] at change
          omega
  | reset nothing goes _ stays =>
      have positive : 0 < deque.size := Nat.lt_of_lt_of_le Nat.zero_lt_two deque.atLeastTwo
      refine ⟨?_, ?_, fun done => ?_, keeps stays⟩
      · exact sequential.bounded.move _ positive positive
      · have empty : deque.contents (RtosDeque.resetPositions data) = [] := Circular.contents_self
        have sections : (RtosDeque.resetPositions data).sections = data.sections ++ [.reset] := rfl
        rw [sections, empty, List.foldlM_append, sequential.refines]
        simpa using resets (deque.contents data)
      · have before := sequential.answered done
        have change := counted done
        have grown : (RtosDeque.resetPositions data).sections.count done =
            data.sections.count done + (decide (DequeSection.reset = done)).toNat := by
          rw [show (RtosDeque.resetPositions data).sections = data.sections ++ [.reset] from rfl,
            List.count_append]
          by_cases same : DequeSection.reset = done <;> simp [same]
        rw [nothing] at change
        rw [grown]
        rcases goes with none_ | same
        · simp only [none_, reduceCtorEq, decide_false, Bool.toNat_false] at change
          omega
        · simp only [same, reduceCtorEq, decide_false, Bool.toNat_false, Option.some_inj] at change
          omega

theorem Sequential.call (sequential : Sequential deque initial does data places) {new : DequePlace}
    {whose : Option DequeAccess} (idle : new.Idle deque whose) :
    Sequential deque initial does data (places ++ [new]) := by
  refine ⟨sequential.bounded, sequential.refines, fun done => ?_, ?_⟩
  · have before := sequential.answered done
    rw [List.countP_append, List.countP_singleton]
    simpa [idle.performed] using before
  · intro place member
    rcases List.mem_append.mp member with old | isNew
    · exact sequential.keeps place old
    · rw [List.mem_singleton.mp isNew]
      exact idle.keeps

end Invariant

def DequeAccess.isFifo (access : DequeAccess) : Bool :=
  match access.puts, access.side with
  | true, .back | false, .front => true
  | _, _ => false

/-- The accesses that keep to the sequence: nothing is put at the front, and nothing is got from the back
except in a deque of two slots. -/
def DequeAccess.inOrder (deque : RtosDeque) (access : DequeAccess) : Bool :=
  access.isFifo || !access.puts && decide (deque.elementCount = 2)

section Accesses

variable {deque : RtosDeque} {initial : Bytes} {data : DequeData} {access : DequeAccess}

/-- Where a deque has room or an element, putting at the back and getting from the front do to it what
they do to a queue. -/
theorem fifo_transfer (bounded : deque.Bounded initial data)
    (free : deque.blocks access data = false) (isFifo : access.isFifo) :
    DequeSection.fifo (deque.size - 1) (deque.contents data)
        (access.transferred deque (deque.transfer access data).2) =
      some (deque.contents (deque.transfer access data).1) := by
  obtain ⟨puts, side, element, timeout, context⟩ := access
  obtain ⟨_, full, bound⟩ := RtosDeque.length_contents bounded
  cases puts with
  | true =>
      cases side with
      | front => cases isFifo
      | back =>
          have room : (deque.contents data).length < deque.size - 1 := by
            have notFull : (deque.contents data).length + 1 ≠ deque.size := by
              intro isFull
              rw [RtosDeque.blocks, if_pos rfl, full.mp isFull] at free
              cases free
            omega
          have appended := @RtosDeque.contents_putBack deque data element initial bounded free
          exact (if_pos room).trans (congrArg some appended.symm)
  | false =>
      cases side with
      | back => cases isFifo
      | front =>
          have first := @RtosDeque.contents_getFront deque data element initial bounded free
          rw [first]
          exact if_pos rfl

theorem apply_of_isFifo (isFifo : access.isFifo) (capacity : Nat)
    (elements : List (List (BitVec 8))) (element : Bytes) :
    DequeSection.apply capacity elements (access.transferred deque element) =
      DequeSection.fifo capacity elements (access.transferred deque element) := by
  obtain ⟨puts, side, given, timeout, context⟩ := access
  cases puts with
  | true =>
      cases side with
      | front => cases isFifo
      | back => rfl
  | false =>
      cases side with
      | front => rfl
      | back => cases isFifo

theorem apply_transfer (bounded : deque.Bounded initial data)
    (free : deque.blocks access data = false) (inOrder : access.inOrder deque) :
    DequeSection.apply (deque.size - 1) (deque.contents data)
        (access.transferred deque (deque.transfer access data).2) =
      some (deque.contents (deque.transfer access data).1) := by
  by_cases isFifo : access.isFifo
  · rw [apply_of_isFifo isFifo]
    exact fifo_transfer bounded free isFifo
  · obtain ⟨puts, side, element, timeout, context⟩ := access
    simp only [DequeAccess.inOrder, Bool.or_eq_true, Bool.and_eq_true, Bool.not_eq_true',
      decide_eq_true_eq] at inOrder
    obtain ⟨rfl, two⟩ := inOrder.resolve_left isFifo
    cases side with
    | front => exact (isFifo rfl).elim
    | back =>
        have isTwo : deque.size = 2 := by
          rw [RtosDeque.size, two]
          rfl
        have last := @RtosDeque.contents_getBack deque data element initial bounded free isTwo
        rw [last]
        refine (if_pos ?_).trans ?_
        · exact List.getLast?_concat ..
        · exact congrArg some (List.dropLast_concat ..)

end Accesses

def DequePlace.inOrder (deque : RtosDeque) (data : DequeData) : DequePlace → Bool
  | .look access => deque.blocks access data || access.inOrder deque
  | _ => true

/-- No element is put at the front, and none is got from the back of a deque of more than two slots. -/
def KeepsToEnds (deque : RtosDeque) (shared : Shared Word Word DequeData DequePlace) :
    Move Result (Context × DequeCall) → Prop
  | .act index _ => ∀ place ∈ shared.places[index]?, place.inOrder deque shared.data
  | .call _ => True

instance (deque : RtosDeque) (shared : Shared Word Word DequeData DequePlace)
    (move : Move Result (Context × DequeCall)) : Decidable (KeepsToEnds deque shared move) :=
  match move with
  | .call _ => inferInstanceAs (Decidable True)
  | .act index _ =>
      inferInstanceAs (Decidable (∀ place ∈ shared.places[index]?, place.inOrder deque shared.data))

/-- Only `osDequePutBack`, `osDequeGetFront` and `osDequeReset` are called. -/
def CallsFifo : Move Result (Context × DequeCall) → Prop
  | .call (_, .osDequePutBack _ _) | .call (_, .osDequeGetFront _ _) | .call (_, .osDequeReset) => True
  | .call _ => False
  | .act _ _ => True

instance (move : Move Result (Context × DequeCall)) : Decidable (CallsFifo move) := by
  unfold CallsFifo
  split
  all_goals infer_instance

section Runs

variable {deque : RtosDeque} {stale : Word} {memory : Bytes}
  {shared next : Shared Word Word DequeData DequePlace} {move : Move Result (Context × DequeCall)}

theorem idle_enter (deque : RtosDeque) (entry : Context × DequeCall) :
    ∃ whose, ((dequeProgram deque).enter entry).Idle deque whose ∧
      (CallsFifo (.call entry) → ∀ access ∈ whose, access.isFifo) := by
  obtain ⟨context, call⟩ := entry
  cases call with
  | osDequePutFront element timeout => exact ⟨_, idle_dequeAccessStart _ _, False.elim⟩
  | osDequeGetBack element timeout => exact ⟨_, idle_dequeAccessStart _ _, False.elim⟩
  | osDequePutBack element timeout =>
      refine ⟨_, idle_dequeAccessStart _ _, fun _ access isIt => ?_⟩
      obtain rfl := Option.some_inj.mp isIt
      rfl
  | osDequeGetFront element timeout =>
      refine ⟨_, idle_dequeAccessStart _ _, fun _ access isIt => ?_⟩
      obtain rfl := Option.some_inj.mp isIt
      rfl
  | osDequeReset =>
      refine ⟨none, ?_, nofun⟩
      simp only [dequeProgram, osDequeResetStart]
      split
      · rename_i invalid
        exact Idle.resetDone (mt OsStatus.code_eq_osOK.mp invalid)
      · split
        · rename_i invalid
          exact Idle.resetDone (mt OsStatus.code_eq_osOK.mp invalid)
        · exact idle_afterResetSet _

theorem Sequential.step_ends
    (sequential : Sequential deque memory (DequeSection.apply (deque.size - 1)) shared.data
      shared.places) (ends : KeepsToEnds deque shared move)
    (moved : (dequeProgram deque).step shared move = some next) :
    Sequential deque memory (DequeSection.apply (deque.size - 1)) next.data next.places := by
  cases move with
  | call entry =>
      obtain rfl := Option.some_inj.mp moved
      obtain ⟨whose, idle, _⟩ := idle_enter deque entry
      exact sequential.call idle
  | act index answer =>
      obtain ⟨place, after, found, places, effect⟩ := effect_of_step moved
      rw [places]
      refine sequential.step found effect (fun _ => rfl) fun access isLook free => ?_
      have inOrder := ends place found
      rw [isLook, DequePlace.inOrder, free] at inOrder
      exact apply_transfer sequential.bounded free inOrder

theorem Sequential.step_fifo
    (sequential : Sequential deque memory (DequeSection.fifo (deque.size - 1)) shared.data
      shared.places) (isFifo : ∀ place ∈ shared.places, ∀ access ∈ place.access, access.isFifo)
    (calls : CallsFifo move) (moved : (dequeProgram deque).step shared move = some next) :
    Sequential deque memory (DequeSection.fifo (deque.size - 1)) next.data next.places ∧
      ∀ place ∈ next.places, ∀ access ∈ place.access, access.isFifo := by
  cases move with
  | call entry =>
      obtain rfl := Option.some_inj.mp moved
      obtain ⟨whose, idle, fifo⟩ := idle_enter deque entry
      refine ⟨sequential.call idle, fun place member access isIt => ?_⟩
      rcases List.mem_append.mp member with old | isNew
      · exact isFifo place old access isIt
      · rw [List.mem_singleton.mp isNew] at isIt
        rcases idle.access with none_ | same
        · rw [none_] at isIt
          cases isIt
        · exact fifo calls access (same ▸ isIt)
  | act index answer =>
      obtain ⟨place, after, found, places, effect⟩ := effect_of_step moved
      have own := isFifo place (List.mem_of_getElem? found)
      have kept := sequential.keeps place (List.mem_of_getElem? found)
      rw [places]
      constructor
      · refine sequential.step found effect (fun _ => rfl) fun access isLook free => ?_
        exact fifo_transfer sequential.bounded free (own access (isLook ▸ rfl))
      · intro other member access isIt
        rcases List.mem_or_eq_of_mem_set member with old | rfl
        · exact isFifo other old access isIt
        · rcases effect.access kept with none_ | same
          · rw [none_] at isIt
            cases isIt
          · exact own access (same ▸ isIt)

variable {cores : Nat} [NeZero cores] {machine : Machine cores DequeData DequePlace}

/-- As long as no element is put at the front, and none is got from the back except in a deque of two
slots, the calls act on a sequence with two ends. -/
theorem sequential_of_guarded
    (reached : (dequeSystem cores deque stale memory).Guarded
      (Machine.Meets (dequeProgram deque) deque.cells (KeepsToEnds deque)) machine) :
    Sequential deque memory (DequeSection.apply (deque.size - 1)) machine.data
      (machine.calls.map Call.place) :=
  invariant_of_machine (fun shared => Sequential deque memory (DequeSection.apply (deque.size - 1))
    shared.data shared.places) (confined_dequeProgram deque) (Sequential.init deque memory)
    (fun _ _ _ sequential ends moved => sequential.step_ends ends moved) reached

/-- A deque on which only these functions are called is a queue, with room for all elements but one. -/
theorem fifo_of_guarded
    (reached : (dequeSystem cores deque stale memory).Guarded
      (Machine.Meets (dequeProgram deque) deque.cells fun _ move => CallsFifo move) machine) :
    Sequential deque memory (DequeSection.fifo (deque.size - 1)) machine.data
      (machine.calls.map Call.place) := by
  have both := invariant_of_machine (fun shared =>
    Sequential deque memory (DequeSection.fifo (deque.size - 1)) shared.data shared.places ∧
      ∀ place ∈ shared.places, ∀ access ∈ place.access, access.isFifo)
    (confined_dequeProgram deque) ⟨Sequential.init deque memory, List.forall_mem_nil _⟩
    (fun _ _ _ holds calls moved => holds.1.step_fifo holds.2 calls moved) reached
  exact both.1

end Runs

def fourSlots : RtosDeque where
  elementSize := 2
  elementCount := 4
  events := { flags := 0x204, waiters := 0x208, futex := 0x200, apart := by decide }
  buffer := 0x20000000
  waiters := 0x20c
  power := ⟨2, rfl⟩
  atLeastTwo := by decide
  fits := by decide
  apart := by decide
  made := rfl

def putThenGet : List (Label 1 DequeCall) :=
  .call 0 (.osDequePutBack (fun _ => 7) 0) :: List.replicate 6 (.act 0 0) ++
    .call 0 (.osDequeGetFront (fun _ => 0) 0) :: List.replicate 6 (.act 0 1)

theorem sequential_of_guarded_put :
    ∃ machine : Machine 1 DequeData DequePlace,
      machine.data.sections = [.put .back [7, 7], .get .front [7, 7]] ∧
        Sequential fourSlots (fun _ => 0) (DequeSection.apply 3) machine.data
          (machine.calls.map Call.place) := by
  obtain ⟨machine, reached, sections⟩ := exists_machine (dequeProgram fourSlots)
    (Machine.Meets (dequeProgram fourSlots) fourSlots.cells (KeepsToEnds fourSlots))
    [fourSlots.events.flags, fourSlots.events.waiters, fourSlots.waiters]
    (fourSlots.initialMemory 0) (fourSlots.initialData fun _ => 0)
    (oneRunner ++ [.futexInit 0x200 0x204 0]) putThenGet
    (fun machine => machine.data.sections = [.put .back [7, 7], .get .front [7, 7]])
    (by decide +kernel)
  exact ⟨machine, sections, sequential_of_guarded reached⟩

theorem not_sequential :
    ¬∀ machine : Machine 1 DequeData DequePlace,
      (dequeSystem 1 fourSlots 0 fun _ => 0).Reachable machine →
        Sequential fourSlots (fun _ => 0) (DequeSection.apply 3) machine.data
          (machine.calls.map Call.place) := by
  intro always
  obtain ⟨machine, reached, sections, same⟩ := exists_machine (dequeProgram fourSlots)
    (fun _ _ => True) [fourSlots.events.flags, fourSlots.events.waiters, fourSlots.waiters]
    (fourSlots.initialMemory 0) (fourSlots.initialData fun _ => 0)
    (oneRunner ++ [.futexInit 0x200 0x204 0])
    (.call 0 (.osDequePutFront (fun _ => 7) 0) :: List.replicate 6 (.act 0 0))
    (fun machine => machine.data.sections = [.put .front [7, 7]] ∧
      machine.data.front = machine.data.back) (by decide)
  have refines := (always machine reached).refines
  have empty : fourSlots.contents machine.data = [] := by
    rw [RtosDeque.contents, same]
    exact Circular.contents_self
  rw [sections, empty] at refines
  exact absurd refines (by decide)

theorem fifo_of_guarded_reset :
    ∃ machine : Machine 1 DequeData DequePlace,
      machine.data.sections = [.put .back [7, 7], .get .front [7, 7], .reset] ∧
        Sequential fourSlots (fun _ => 0) (DequeSection.fifo 3) machine.data
          (machine.calls.map Call.place) := by
  obtain ⟨machine, reached, sections⟩ := exists_machine (dequeProgram fourSlots)
    (Machine.Meets (dequeProgram fourSlots) fourSlots.cells fun _ move => CallsFifo move)
    [fourSlots.events.flags, fourSlots.events.waiters, fourSlots.waiters]
    (fourSlots.initialMemory 0) (fourSlots.initialData fun _ => 0)
    (oneRunner ++ [.futexInit 0x200 0x204 0])
    (putThenGet ++ .call 0 .osDequeReset :: List.replicate 5 (.act 0 2))
    (fun machine => machine.data.sections = [.put .back [7, 7], .get .front [7, 7], .reset])
    (by decide +kernel)
  exact ⟨machine, sections, fifo_of_guarded reached⟩

end PicoToolkit
