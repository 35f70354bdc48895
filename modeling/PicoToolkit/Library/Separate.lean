import PicoToolkit.Library.Locking

/-!
Calls that work on what they own.  What the code of a call makes certain about its own part of the store
stays certain whatever calls of other owners do in between.
-/

namespace Locking

variable {Owner Key Node Effect Value Result Other Store : Type}

/-- What an operation does to the store, which operations are about what an owner owns, what it can learn
from an operation, and when two stores are the same for it. -/
structure Semantics (Owner Key Node Effect Value Store : Type) where
  after : Store → Op Key Node Effect → Store
  within : Owner → Op Key Node Effect → Prop
  possible : Owner → Store → (op : Op Key Node Effect) → op.Answer Value → Prop
  same : Owner → Store → Store → Prop
  same_after : ∀ {owner other : Owner} {op : Op Key Node Effect} (store : Store), within owner op →
    owner ≠ other → same other store (after store op)
  after_same : ∀ {owner : Owner} {store next : Store} (op : Op Key Node Effect), same owner store next →
    same owner (after store op) (after next op)
  possible_same : ∀ {owner : Owner} {store next : Store} {op : Op Key Node Effect}
    {answer : op.Answer Value}, same owner store next → possible owner next op answer →
    possible owner store op answer

variable (semantics : Semantics Owner Key Node Effect Value Store)

def Ensures (owner : Owner) (post : Result → Store → Prop) :
    Code Key Node Effect Value Result → Store → Prop
  | .done result, store => post result store
  | .step op next, store => semantics.within owner op ∧ ∀ answer,
      semantics.possible owner store op answer →
        Ensures owner post (next answer) (semantics.after store op)

def Stable (owner : Owner) (post : Result → Store → Prop) : Prop :=
  ∀ result store next, semantics.same owner store next → post result store → post result next

section Rules

variable {semantics} {owner other : Owner} {post weaker : Result → Store → Prop} {store next : Store}
  {code : Code Key Node Effect Value Result}

theorem Ensures.pure {result : Result} (holds : post result store) :
    Ensures semantics owner post (pure result : Code Key Node Effect Value Result) store := holds

theorem Ensures.bind {result : Other → Store → Prop} {rest : Result → Code Key Node Effect Value Other}
    (first : Ensures semantics owner
      (fun middle store => Ensures semantics owner result (rest middle) store) code store) :
    Ensures semantics owner result (code >>= rest) store := by
  induction code generalizing store with
  | done middle => exact first
  | step op next ih => exact ⟨first.1, fun answer possible => ih answer (first.2 answer possible)⟩

theorem Ensures.mono (ensures : Ensures semantics owner post code store)
    (weakens : ∀ result store, post result store → weaker result store) :
    Ensures semantics owner weaker code store := by
  induction code generalizing store with
  | done result => exact weakens result store ensures
  | step op next ih => exact ⟨ensures.1, fun answer possible => ih answer (ensures.2 answer possible)⟩

theorem Ensures.ite {condition : Prop} [Decidable condition] {no : Code Key Node Effect Value Result}
    (whenTrue : condition → Ensures semantics owner post code store)
    (whenFalse : ¬condition → Ensures semantics owner post no store) :
    Ensures semantics owner post (if condition then code else no) store := by
  by_cases holds : condition
  · rw [if_pos holds]
    exact whenTrue holds
  · rw [if_neg holds]
    exact whenFalse holds

theorem Ensures.same (stable : Stable semantics owner post) (same : semantics.same owner store next)
    (ensures : Ensures semantics owner post code store) : Ensures semantics owner post code next := by
  induction code generalizing store next with
  | done result => exact stable result store next same ensures
  | step op rest ih =>
      refine ⟨ensures.1, fun answer possible => ih answer (semantics.after_same op same) ?_⟩
      exact ensures.2 answer (semantics.possible_same same possible)

theorem Ensures.frame {op : Op Key Node Effect} (stable : Stable semantics other post)
    (ensures : Ensures semantics other post code store) (within : semantics.within owner op)
    (different : owner ≠ other) : Ensures semantics other post code (semantics.after store op) :=
  ensures.same stable (semantics.same_after store within different)

end Rules

end Locking
