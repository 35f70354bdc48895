import Mathlib.Data.Option.Basic

/-!
What can be told of an object by operations on it, one after the other.  Two objects are the same to
their users if no sequence of operations gives different answers.
-/

namespace Observation

variable {Memory Operation Object Answer : Type}

def answers (perform : Operation → Object → Option (Answer × Object)) :
    List Operation → Object → List Answer
  | [], _ => []
  | operation :: rest, object =>
      match perform operation object with
      | none => []
      | some (answer, after) => answer :: answers perform rest after

def Simulates (perform : Operation → Object → Option (Answer × Object))
    (alike : Object → Object → Prop) : Prop :=
  ∀ operation object other, alike object other →
    (perform operation object = none ∧ perform operation other = none) ∨
      ∃ answer after otherAfter, perform operation object = some (answer, after) ∧
        perform operation other = some (answer, otherAfter) ∧ alike after otherAfter

theorem simulates_eq (perform : Operation → Object → Option (Answer × Object)) :
    Simulates perform Eq := by
  rintro operation object _ rfl
  cases performed : perform operation object with
  | none => exact .inl ⟨rfl, rfl⟩
  | some done => exact .inr ⟨_, _, _, rfl, rfl, rfl⟩

theorem answers_eq {perform : Operation → Object → Option (Answer × Object)}
    {alike : Object → Object → Prop} (simulates : Simulates perform alike) {object other : Object}
    (areAlike : alike object other) (operations : List Operation) :
    answers perform operations object = answers perform operations other := by
  induction operations generalizing object other with
  | nil => rfl
  | cons operation rest ih =>
      simp only [answers]
      rcases simulates operation object other areAlike with
        ⟨none_, otherNone⟩ | ⟨answer, after, otherAfter, performed, otherPerformed, stillAlike⟩
      · rw [none_, otherNone]
      · rw [performed, otherPerformed]
        exact congrArg (answer :: ·) (ih stillAlike)

/-- A creation gives objects that are the same whatever has been in their memory before, and that do not
give the memory back to the one they have not got it from. -/
structure Independent (create : Memory → Option Object)
    (perform : Operation → Object → Option (Answer × Object)) (supplied : Prop)
    (releases : Object → Prop) : Prop where
  creates : ∀ memory other, (create memory).isSome = (create other).isSome
  same : ∀ memory other object otherObject, create memory = some object →
    create other = some otherObject → ∀ operations,
      answers perform operations object = answers perform operations otherObject
  keeps : supplied → ∀ memory object, create memory = some object → ¬releases object

theorem independent_of_constant {create : Memory → Option Object}
    {perform : Operation → Object → Option (Answer × Object)} {supplied : Prop}
    {releases : Object → Prop} (constant : ∀ memory other, create memory = create other)
    (keeps : supplied → ∀ memory object, create memory = some object → ¬releases object) :
    Independent create perform supplied releases where
  creates memory other := by rw [constant memory other]
  same memory other object otherObject made otherMade operations := by
    rw [constant memory other, otherMade] at made
    rw [Option.some_inj.mp made]
  keeps := keeps

section Places

variable {Place : Type} {place : Option Place} {dynamic : Prop} [Decidable dynamic]
  {clean : Place → Memory} {init : Place → Memory → Object} {create : Memory → Option Object}
  {perform : Operation → Object → Option (Answer × Object)} {releases : Object → Prop}

/-- A creation finds a place without a look at the memory, which it clears if it has allocated it. -/
def InPlace (place : Option Place) (dynamic : Prop) [Decidable dynamic] (clean : Place → Memory)
    (init : Place → Memory → Object) (create : Memory → Option Object) : Prop :=
  ∀ memory, create memory = place.map fun p => init p (if dynamic then clean p else memory)

theorem InPlace.made (inPlace : InPlace place dynamic clean init create) {p : Place}
    (isPlace : place = some p) (supplied : ¬dynamic) (memory : Memory) :
    create memory = some (init p memory) := by
  rw [inPlace, isPlace, Option.map_some, if_neg supplied]

/-- Nothing that was in the memory is left if there is no place, or only one in allocated memory. -/
theorem InPlace.independent (inPlace : InPlace place dynamic clean init create)
    (other : ¬(¬dynamic ∧ place.isSome)) : Independent create perform (¬dynamic) releases := by
  by_cases isDynamic : dynamic
  · apply independent_of_constant
    · intro memory another
      simp only [inPlace memory, inPlace another, if_pos isDynamic]
    · exact fun supplied => absurd isDynamic supplied
  · have nowhere : place = none := by
      rw [← Option.not_isSome_iff_eq_none]
      exact fun isPlace => other ⟨isDynamic, isPlace⟩
    have refused (memory : Memory) : create memory = none := by
      rw [inPlace, nowhere]
      rfl
    apply independent_of_constant
    · intro memory another
      rw [refused, refused]
    · intro _ memory object made
      rw [refused] at made
      cases made

/-- If what was in the memory tells whether the object is released, supplied memory must not be used. -/
theorem InPlace.independent_iff_not (inPlace : InPlace place dynamic clean init create)
    (stale : ¬dynamic → ∀ p, ∃ memory, releases (init p memory)) :
    Independent create perform (¬dynamic) releases ↔ ¬(¬dynamic ∧ place.isSome) := by
  constructor
  · rintro independent ⟨supplied, isPlace⟩
    obtain ⟨p, isPlace⟩ := Option.isSome_iff_exists.mp isPlace
    obtain ⟨memory, released⟩ := stale supplied p
    exact independent.keeps supplied memory _ (inPlace.made isPlace supplied memory) released
  · exact inPlace.independent

/-- If nothing tells apart what different contents of the memory leave, only the release is left to
see to. -/
theorem InPlace.independent_iff [Nonempty Memory] {released : Prop} {alike : Object → Object → Prop}
    (inPlace : InPlace place dynamic clean init create) (simulates : Simulates perform alike)
    (isAlike : ¬dynamic → ∀ p, place = some p → ∀ memory another,
      alike (init p memory) (init p another))
    (isReleased : ¬dynamic → ∀ p, place = some p → ∀ memory, releases (init p memory) ↔ released) :
    Independent create perform (¬dynamic) releases ↔ (¬dynamic ∧ place.isSome → ¬released) := by
  constructor
  · rintro independent ⟨supplied, isPlace⟩
    obtain ⟨p, isPlace⟩ := Option.isSome_iff_exists.mp isPlace
    obtain ⟨memory⟩ := ‹Nonempty Memory›
    rw [← isReleased supplied p isPlace memory]
    exact independent.keeps supplied memory _ (inPlace.made isPlace supplied memory)
  · intro right
    by_cases isPlaced : ¬dynamic ∧ place.isSome
    · obtain ⟨supplied, isPlace⟩ := isPlaced
      obtain ⟨p, isPlace⟩ := Option.isSome_iff_exists.mp isPlace
      have made := inPlace.made isPlace supplied
      constructor
      · intro memory another
        rw [made, made]
        rfl
      · intro memory another object anotherObject isObject isAnother
        rw [made] at isObject isAnother
        cases isObject
        cases isAnother
        exact answers_eq simulates (isAlike supplied p isPlace memory another)
      · intro _ memory object isObject
        rw [made] at isObject
        cases isObject
        rw [isReleased supplied p isPlace]
        exact right ⟨supplied, by rw [isPlace]; rfl⟩
    · exact inPlace.independent isPlaced

end Places

end Observation
