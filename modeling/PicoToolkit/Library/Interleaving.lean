import Mathlib.Algebra.BigOperators.Group.List.Basic
import Mathlib.Algebra.GroupWithZero.Nat
import Mathlib.Algebra.Order.Group.Int
import Mathlib.Algebra.Ring.Int.Defs
import Mathlib.Data.Int.Basic
import PicoToolkit.Library.Transition

/-!
Any number of calls of a program, interleaved at its atomic operations.  A call is at a place of the
program; an operation acts on one word of memory, on the data behind a lock, or asks a service, whose
answer may be any.
-/

namespace Interleaving

open Transition

inductive Op (Address Value Request Answer Data Place : Type) where
  | word (address : Address) (act : Value → Value × Place)
  | data (act : Data → Data × Place)
  | service (request : Request) (resume : Answer → Place)

variable {Address Value Request Answer Data Place Other : Type}

def Op.map (outer : Place → Other) : Op Address Value Request Answer Data Place →
    Op Address Value Request Answer Data Other
  | .word address act => .word address fun value => ((act value).1, outer (act value).2)
  | .data act => .data fun data => ((act data).1, outer (act data).2)
  | .service request resume => .service request fun answer => outer (resume answer)

def Op.within {Whole : Type} (get : Whole → Data) (set : Whole → Data → Whole) :
    Op Address Value Request Answer Data Place → Op Address Value Request Answer Whole Place
  | .word address act => .word address act
  | .data act => .data fun whole => (set whole (act (get whole)).1, (act (get whole)).2)
  | .service request resume => .service request resume

theorem Op.map_map {Outermost : Type} (op : Op Address Value Request Answer Data Place)
    (outer : Place → Other) (outermost : Other → Outermost) :
    (op.map outer).map outermost = op.map fun place => outermost (outer place) := by
  cases op with
  | _ => rfl

/-- Where a call begins, and what it does at each place; it is over where it does nothing. -/
structure Program (Address Value Request Answer Data Place Entry : Type) where
  enter : Entry → Place
  op : Place → Option (Op Address Value Request Answer Data Place)

@[ext]
structure Shared (Address Value Data Place : Type) where
  memory : Address → Value
  data : Data
  places : List Place

/-- A new call, or the next operation of a call, with the answer if it asks a service. -/
inductive Move (Answer Entry : Type) where
  | call (entry : Entry)
  | act (index : Nat) (answer : Answer)

variable {Entry : Type} [DecidableEq Address]

namespace Program

def perform (state : Shared Address Value Data Place) (index : Nat) (answer : Answer) :
    Op Address Value Request Answer Data Place → Shared Address Value Data Place
  | .word address act =>
      let (value, place) := act (state.memory address)
      { state with
        memory := Function.update state.memory address value
        places := state.places.set index place }
  | .data act =>
      let (data, place) := act state.data
      { state with data := data, places := state.places.set index place }
  | .service _ resume => { state with places := state.places.set index (resume answer) }

def step (program : Program Address Value Request Answer Data Place Entry)
    (state : Shared Address Value Data Place) :
    Move Answer Entry → Option (Shared Address Value Data Place)
  | .call entry => some { state with places := state.places ++ [program.enter entry] }
  | .act index answer =>
      state.places[index]?.bind fun place => (program.op place).map (perform state index answer)

def system (program : Program Address Value Request Answer Data Place Entry)
    (initial : Shared Address Value Data Place → Prop) :
    System (Shared Address Value Data Place) (Move Answer Entry) where
  initial := initial
  step := program.step

variable {program : Program Address Value Request Answer Data Place Entry}
  {state next : Shared Address Value Data Place}

theorem step_act {index : Nat} {answer : Answer}
    (moved : program.step state (.act index answer) = some next) :
    ∃ place op, state.places[index]? = some place ∧ program.op place = some op ∧
      next = perform state index answer op := by
  obtain ⟨place, found, moved⟩ := Option.bind_eq_some_iff.mp moved
  obtain ⟨op, isNext, rfl⟩ := Option.map_eq_some_iff.mp moved
  exact ⟨place, op, found, isNext, rfl⟩

theorem perform_places (state : Shared Address Value Data Place) (index : Nat) (answer : Answer)
    (op : Op Address Value Request Answer Data Place) :
    ∃ place, (perform state index answer op).places = state.places.set index place := by
  cases op with
  | word address act => exact ⟨_, rfl⟩
  | data act => exact ⟨_, rfl⟩
  | service request resume => exact ⟨_, rfl⟩

theorem perform_map_places (state : Shared Address Value Data Place) (index : Nat) (answer : Answer)
    (op : Op Address Value Request Answer Data Other) (outer : Other → Place) :
    ∃ inner, (perform state index answer (op.map outer)).places = state.places.set index (outer inner) := by
  cases op with
  | word address act => exact ⟨_, rfl⟩
  | data act => exact ⟨_, rfl⟩
  | service request resume => exact ⟨_, rfl⟩

theorem place_of_other {move : Move Answer Entry} {index : Nat} {place : Place}
    (moved : program.step state move = some next) (found : state.places[index]? = some place)
    (other : ∀ answer, move ≠ .act index answer) : next.places[index]? = some place := by
  cases move with
  | call entry =>
      obtain rfl := Option.some_inj.mp moved
      exact List.getElem?_append_left (List.getElem?_eq_some_iff.mp found).1 |>.trans found
  | act acting answer =>
      obtain ⟨from_, op, _, _, rfl⟩ := step_act moved
      obtain ⟨to_, places⟩ := perform_places state acting answer op
      have apart : acting ≠ index := fun same => other answer (by rw [same])
      rw [places, List.getElem?_set_ne apart, found]

end Program

def total (weight : Place → Int) (places : List Place) : Int := (places.map weight).sum

section Total

variable {weight : Place → Int} {places : List Place}

@[simp]
theorem total_nil : total weight [] = 0 := rfl

@[simp]
theorem total_cons (place : Place) :
    total weight (place :: places) = weight place + total weight places := List.sum_cons

@[simp]
theorem total_append (more : List Place) :
    total weight (places ++ more) = total weight places + total weight more := by
  simp [total]

theorem total_congr {other : Place → Int} (same : ∀ place ∈ places, weight place = other place) :
    total weight places = total other places := by
  rw [total, total, List.map_congr_left same]

theorem total_sub {other : Place → Int} :
    total (fun place => weight place - other place) places =
      total weight places - total other places := by
  induction places with
  | nil => rfl
  | cons first rest ih =>
      simp only [total_cons, ih]
      omega

theorem total_neg : total (fun place => -weight place) places = -total weight places := by
  induction places with
  | nil => rfl
  | cons first rest ih =>
      simp only [total_cons, ih]
      omega

theorem total_set {index : Nat} {place : Place} (found : places[index]? = some place)
    (next : Place) :
    total weight (places.set index next) = total weight places - weight place + weight next := by
  induction places generalizing index with
  | nil => cases found
  | cons first rest ih =>
      cases index with
      | zero =>
          obtain rfl : first = place := by simpa using found
          simp only [List.set_cons_zero, total_cons]
          omega
      | succ index =>
          simp only [List.set_cons_succ, total_cons, ih (by simpa using found)]
          omega

theorem total_nonneg (nonneg : ∀ place, 0 ≤ weight place) : 0 ≤ total weight places := by
  induction places with
  | nil => exact Int.le_refl 0
  | cons first rest ih =>
      have some := nonneg first
      rw [total_cons]
      omega

theorem total_mono {smaller : Place → Int} (below : ∀ place, smaller place ≤ weight place) :
    total smaller places ≤ total weight places := by
  induction places with
  | nil => exact Int.le_refl 0
  | cons first rest ih =>
      have own := below first
      simp only [total_cons]
      omega

theorem le_total (nonneg : ∀ place, 0 ≤ weight place) {index : Nat} {place : Place}
    (found : places[index]? = some place) : weight place ≤ total weight places := by
  induction places generalizing index with
  | nil => cases found
  | cons first rest ih =>
      have others := @total_nonneg _ weight rest nonneg
      have own := nonneg first
      rw [total_cons]
      cases index with
      | zero =>
          obtain rfl : first = place := by simpa using found
          omega
      | succ index =>
          have inside := ih (by simpa using found)
          omega

theorem add_le_total (nonneg : ∀ place, 0 ≤ weight place) {first second : Nat}
    {one another : Place} (different : first ≠ second) (found : places[first]? = some one)
    (foundSecond : places[second]? = some another) :
    weight one + weight another ≤ total weight places := by
  induction places generalizing first second with
  | nil => cases found
  | cons head rest ih =>
      have own := nonneg head
      rw [total_cons]
      cases first with
      | zero =>
          obtain rfl : head = one := by simpa using found
          cases second with
          | zero => exact (different rfl).elim
          | succ second =>
              have inside := le_total nonneg (show rest[second]? = some another by
                simpa using foundSecond)
              omega
      | succ first =>
          cases second with
          | zero =>
              obtain rfl : head = another := by simpa using foundSecond
              have inside := le_total nonneg (show rest[first]? = some one by simpa using found)
              omega
          | succ second =>
              have inside := ih (fun same => different (congrArg _ same)) (by simpa using found)
                (by simpa using foundSecond)
              omega

theorem total_natCast (weight : Place → Nat) :
    total (fun place => weight place) places = (places.map weight).sum := by
  induction places with
  | nil => rfl
  | cons first rest ih => rw [total_cons, ih, List.map_cons, List.sum_cons, Int.natCast_add]

theorem total_toNat (counted : Place → Bool) :
    total (fun place => (counted place).toNat) places = places.countP counted := by
  induction places with
  | nil => rfl
  | cons first rest ih =>
      rw [total_cons, ih, List.countP_cons]
      cases counted first with
      | _ =>
          simp only [Bool.toNat_true, Bool.toNat_false, if_true, Bool.false_eq_true, if_false]
          omega

theorem total_countP (counted uncounted : Place → Bool) :
    total (fun place => (counted place).toNat - (uncounted place).toNat) places =
      places.countP counted - places.countP uncounted := by
  rw [total_sub, total_toNat, total_toNat]

theorem countP_set {counted : Place → Bool} {index : Nat} {place : Place}
    (found : places[index]? = some place) (after : Place) :
    (places.set index after).countP counted + (counted place).toNat =
      places.countP counted + (counted after).toNat := by
  have sum := @total_set _ (fun place => (counted place).toNat) _ _ _ found after
  rw [total_toNat, total_toNat] at sum
  omega

end Total

theorem mem_set_or {places : List Place} {index : Nat} {after other : Place}
    (member : other ∈ places.set index after) : other = after ∨ other ∈ places.eraseIdx index := by
  obtain ⟨position, isThere⟩ := List.mem_iff_getElem?.mp member
  by_cases same : index = position
  · subst same
    rw [List.getElem?_set_self (List.length_set .. ▸ (List.getElem?_eq_some_iff.mp isThere).1)]
      at isThere
    exact Or.inl (Option.some_inj.mp isThere).symm
  · rw [List.getElem?_set_ne same] at isThere
    exact Or.inr (List.mem_eraseIdx_iff_getElem?.mpr ⟨position, Ne.symm same, isThere⟩)

end Interleaving
