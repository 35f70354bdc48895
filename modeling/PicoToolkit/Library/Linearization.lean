import Mathlib.Data.List.Nodup

/-!
Linearisable histories.  The calls of an object overlap in time; their history is linearisable if
some order of the calls, each taken as one step of the object, gives the results that they had and
keeps each call behind those that had returned before it began.
-/

namespace Linearization

inductive Event (Call Result : Type) where
  | invoke (id : Nat) (call : Call)
  | respond (id : Nat) (result : Result)
  deriving DecidableEq

structure Entry (Call Result : Type) where
  id : Nat
  call : Call
  result : Result

variable {State Call Result : Type}

/-- The calls, one after another, have the results that the order says and end in the state. -/
def Legal (apply : State → Call → Result × State) (state : State) :
    List (Entry Call Result) → State → Prop
  | [], final => state = final
  | entry :: rest, final =>
      (apply state entry.call).1 = entry.result ∧ Legal apply (apply state entry.call).2 rest final

def Precedes (history : List (Event Call Result)) (earlier later : Nat) : Prop :=
  ∃ first second result call, history = first ++ second ∧ Event.respond earlier result ∈ first ∧
    Event.invoke later call ∈ second

def Before (order : List (Entry Call Result)) (earlier later : Nat) : Prop :=
  ∃ first second, order = first ++ second ∧ (∃ entry ∈ first, entry.id = earlier) ∧
    ∃ entry ∈ second, entry.id = later

/-- The order holds every call that has returned, and of the others those that have taken effect. -/
structure Linearizes (apply : State → Call → Result × State) (start : State)
    (history : List (Event Call Result)) (order : List (Entry Call Result)) (final : State) :
    Prop where
  legal : Legal apply start order final
  nodup : (order.map Entry.id).Nodup
  invoked : ∀ entry ∈ order, Event.invoke entry.id entry.call ∈ history
  responded : ∀ id result, Event.respond id result ∈ history →
    ∃ entry ∈ order, entry.id = id ∧ entry.result = result
  realTime : ∀ earlier later, Precedes history earlier later → later ∈ order.map Entry.id →
    Before order earlier later

def Linearizable (apply : State → Call → Result × State) (start : State)
    (history : List (Event Call Result)) (final : State) : Prop :=
  ∃ order, Linearizes apply start history order final

variable {apply : State → Call → Result × State} {start final : State}
  {history : List (Event Call Result)} {order : List (Entry Call Result)}

theorem Legal.append (legal : Legal apply start order final) (id : Nat) (call : Call) :
    Legal apply start (order ++ [⟨id, call, (apply final call).1⟩]) (apply final call).2 := by
  induction order generalizing start with
  | nil =>
      obtain rfl : start = final := legal
      exact ⟨rfl, rfl⟩
  | cons entry rest ih => exact ⟨legal.1, ih legal.2⟩

theorem Precedes.of_append {event : Event Call Result} {earlier later : Nat}
    (precedes : Precedes (history ++ [event]) earlier later) :
    Precedes history earlier later ∨ ∃ call, event = .invoke later call := by
  obtain ⟨first, second, result, call, split, responded, invoked⟩ := precedes
  rcases List.eq_nil_or_concat second with empty | ⟨second, last, rfl⟩
  · subst empty
    cases invoked
  · rw [List.concat_eq_append, ← List.append_assoc] at split
    obtain ⟨same, sameLast⟩ := List.append_inj' split rfl
    obtain rfl : event = last := by simpa using sameLast
    rw [List.concat_eq_append, List.mem_append] at invoked
    rcases invoked with inside | isLast
    · exact Or.inl ⟨first, second, result, call, same, responded, inside⟩
    · exact Or.inr ⟨call, (List.mem_singleton.mp isLast).symm⟩

theorem Precedes.responded {earlier later : Nat} (precedes : Precedes history earlier later) :
    ∃ result, Event.respond earlier result ∈ history := by
  obtain ⟨first, second, result, call, rfl, responded, _⟩ := precedes
  exact ⟨result, List.mem_append_left _ responded⟩

theorem Before.append {earlier later : Nat} (before : Before order earlier later)
    (entry : Entry Call Result) : Before (order ++ [entry]) earlier later := by
  obtain ⟨first, second, rfl, isFirst, other, member, isSecond⟩ := before
  exact ⟨first, second ++ [entry], by rw [List.append_assoc], isFirst, other,
    List.mem_append_left _ member, isSecond⟩

namespace Linearizes

theorem nil : Linearizes apply start [] [] start where
  legal := rfl
  nodup := List.nodup_nil
  invoked _ member := by cases member
  responded _ _ member := by cases member
  realTime _ _ _ member := by cases member

theorem invoke (linearizes : Linearizes apply start history order final) {id : Nat} (call : Call)
    (fresh : id ∉ order.map Entry.id) :
    Linearizes apply start (history ++ [.invoke id call]) order final where
  legal := linearizes.legal
  nodup := linearizes.nodup
  invoked entry member := List.mem_append_left _ (linearizes.invoked entry member)
  responded other result member := by
    refine linearizes.responded other result ?_
    simpa using member
  realTime earlier later precedes member := by
    rcases precedes.of_append with before | ⟨_, begins⟩
    · exact linearizes.realTime earlier later before member
    · cases begins
      exact (fresh member).elim

theorem commit (linearizes : Linearizes apply start history order final) {id : Nat} {call : Call}
    (invoked : Event.invoke id call ∈ history) (fresh : id ∉ order.map Entry.id) :
    Linearizes apply start history (order ++ [⟨id, call, (apply final call).1⟩])
      (apply final call).2 where
  legal := linearizes.legal.append id call
  nodup := by
    rw [List.map_append]
    exact List.nodup_append'.mpr ⟨linearizes.nodup, List.nodup_singleton id,
      List.disjoint_singleton.mpr fresh⟩
  invoked entry member := by
    rcases List.mem_append.mp member with old | new
    · exact linearizes.invoked entry old
    · obtain rfl := List.mem_singleton.mp new
      exact invoked
  responded other result member := by
    obtain ⟨entry, inOrder, same⟩ := linearizes.responded other result member
    exact ⟨entry, List.mem_append_left _ inOrder, same⟩
  realTime earlier later precedes member := by
    rw [List.map_append, List.mem_append] at member
    rcases member with old | new
    · exact (linearizes.realTime earlier later precedes old).append _
    · obtain rfl : later = id := List.mem_singleton.mp new
      -- what has returned has taken effect, so it stands in front of the new entry
      obtain ⟨result, responded⟩ := precedes.responded
      obtain ⟨entry, inOrder, isEarlier, _⟩ := linearizes.responded earlier result responded
      exact ⟨order, _, rfl, ⟨entry, inOrder, isEarlier⟩, _, List.mem_singleton_self _, rfl⟩

theorem respond (linearizes : Linearizes apply start history order final) {id : Nat}
    {entry : Entry Call Result} (member : entry ∈ order) (own : entry.id = id) :
    Linearizes apply start (history ++ [.respond id entry.result]) order final where
  legal := linearizes.legal
  nodup := linearizes.nodup
  invoked other inOrder := List.mem_append_left _ (linearizes.invoked other inOrder)
  responded other result returned := by
    rcases List.mem_append.mp returned with old | new
    · exact linearizes.responded other result old
    · cases List.mem_singleton.mp new
      exact ⟨entry, member, own, rfl⟩
  realTime earlier later precedes inOrder := by
    rcases precedes.of_append with before | ⟨_, begins⟩
    · exact linearizes.realTime earlier later before inOrder
    · cases begins

end Linearizes

theorem eq_pair_of_nodup (nodup : (order.map Entry.id).Nodup)
    {first second : Entry Call Result} (isFirst : first ∈ order) (isSecond : second ∈ order)
    (different : first.id ≠ second.id)
    (others : ∀ entry ∈ order, entry.id = first.id ∨ entry.id = second.id) :
    order = [first, second] ∨ order = [second, first] := by
  have only : ∀ entry ∈ order, entry = first ∨ entry = second := by
    intro entry member
    rcases others entry member with same | same
    · exact Or.inl (List.inj_on_of_nodup_map nodup member isFirst same)
    · exact Or.inr (List.inj_on_of_nodup_map nodup member isSecond same)
  have members : order.Perm [first, second] := by
    refine (List.perm_ext_iff_of_nodup nodup.of_map ?_).mpr fun entry => ?_
    · have apart : first ≠ second := fun same => different (congrArg Entry.id same)
      simp [apart]
    · constructor
      · intro member
        rcases only entry member with rfl | rfl
        · simp
        · simp
      · intro member
        rcases List.mem_pair.mp member with rfl | rfl
        · exact isFirst
        · exact isSecond
  match order, members.length_eq with
  | [one, other], _ =>
      have isOne := only one (by simp)
      have isOther := only other (by simp)
      rcases isOne with rfl | rfl
      · rcases isOther with rfl | rfl
        · simp at nodup
        · exact Or.inl rfl
      · rcases isOther with rfl | rfl
        · exact Or.inr rfl
        · simp at nodup

end Linearization
