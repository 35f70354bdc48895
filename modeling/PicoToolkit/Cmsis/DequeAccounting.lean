import PicoToolkit.Cmsis.DequeCreation
import PicoToolkit.Cmsis.DequeOrder

/-!
How many elements a deque says that it has, has room for and may have.  One slot always stays free, so
the first two add up to one less than the third.
-/

namespace PicoToolkit

/-- The positions between two operations, and how many more elements have been put than got since the
creation or the last reset. -/
structure DequeState where
  front : Word
  back : Word
  stored : Int
  deriving DecidableEq

inductive DequeMove where
  | put (side : DequeEnd)
  | get (side : DequeEnd)
  | reset
  deriving DecidableEq

/-- What puts at the front and what gets from the back is left out: it moves the position the wrong
way. -/
def DequeMove.IsFifo : DequeMove → Prop
  | .put side => side = .back
  | .get side => side = .front
  | .reset => True

def DequeAccess.move (access : DequeAccess) : DequeMove :=
  if access.puts then .put access.side else .get access.side

namespace CreatedDeque

section Functions

variable (deque : CreatedDeque) (state : DequeState)

def dequeIsEmpty : Bool := decide (state.front = state.back)

def dequeIsFull : Bool := decide (modulo (state.back + 1) deque.elementCount = state.front)

def osDequeGetCapacity (context : Context) : Word :=
  if osKernelContextIsValid true 0 context ≠ .osOK then 0
  else if osIsResourceValid deque.marker rtosDequeMarker ≠ .osOK then 0
  else deque.elementCount

def osDequeGetCount : Word :=
  if osIsResourceValid deque.marker rtosDequeMarker ≠ .osOK then 0
  else modulo (state.back - state.front) deque.elementCount

def osDequeGetSpace : Word :=
  if osIsResourceValid deque.marker rtosDequeMarker ≠ .osOK then 0
  else modulo (state.front - (state.back + 1)) deque.elementCount

/-- An operation with a time-out of zero; where it would wait, it fails and changes nothing. -/
def perform : DequeMove → Option DequeState
  | .put side =>
      if deque.dequeIsFull state then none
      else match side with
        | .front => some ⟨dequeDec deque.elementCount (state.front - 1), state.back, state.stored + 1⟩
        | .back => some ⟨state.front, dequeInc deque.elementCount state.back, state.stored + 1⟩
  | .get side =>
      if dequeIsEmpty state then none
      else match side with
        | .front => some ⟨dequeInc deque.elementCount state.front, state.back, state.stored - 1⟩
        | .back => some ⟨state.front, dequeDec deque.elementCount state.back, state.stored - 1⟩
  | .reset => some ⟨0, 0, 0⟩

def run (moves : List DequeMove) : Option DequeState := moves.foldlM deque.perform state

/-- The three functions tell how the deque stands, and from an empty deque as many elements as it has
capacity can be put at the back, and no more. -/
def Accounts : Prop :=
  ((deque.osDequeGetCount state).toNat : Int) = state.stored ∧
  ∀ context,
    (deque.osDequeGetCount state).toNat + (deque.osDequeGetSpace state).toNat =
      (deque.osDequeGetCapacity context).toNat ∧
    (dequeIsEmpty state → ∃ full,
      deque.run state (List.replicate (deque.osDequeGetCapacity context).toNat (.put .back)) =
        some full ∧ deque.perform full (.put .back) = none)

def initial : DequeState := ⟨deque.front, deque.back, 0⟩

end Functions

variable {elementCount elementSize : Word} {attr : DequeAttr} {alloc : Word → Word}
  {context : Context} {deque : CreatedDeque} {state : DequeState}

theorem osDequeGetCapacity_eq (valid : deque.marker = rtosDequeMarker) (context : Context) :
    deque.osDequeGetCapacity context = deque.elementCount := by
  cases context with
  | _ => simp [osDequeGetCapacity, osKernelContextIsValid, osIsResourceValid, valid]

theorem osDequeGetCount_eq (valid : deque.marker = rtosDequeMarker) :
    deque.osDequeGetCount state = modulo (state.back - state.front) deque.elementCount := by
  simp [osDequeGetCount, osIsResourceValid, valid]

theorem osDequeGetSpace_eq (valid : deque.marker = rtosDequeMarker) :
    deque.osDequeGetSpace state = modulo (state.front - (state.back + 1)) deque.elementCount := by
  simp [osDequeGetSpace, osIsResourceValid, valid]

/-- The same mask keeps complementary bits of the two differences, so together they are the mask,
whatever the positions and the number of elements are. -/
theorem count_add_space (valid : deque.marker = rtosDequeMarker) :
    deque.osDequeGetCount state + deque.osDequeGetSpace state = deque.elementCount - 1 := by
  have complement : state.front - (state.back + 1) = ~~~(state.back - state.front) := by
    have negated := @BitVec.neg_eq_not_add 32 (state.back - state.front)
    bv_omega
  rw [osDequeGetCount_eq valid, osDequeGetSpace_eq valid, modulo, modulo, complement,
    BitVec.add_eq_or_of_and_eq_zero]
  · ext bit inside
    simp only [BitVec.getElem_or, BitVec.getElem_and, BitVec.getElem_not]
    cases (state.back - state.front)[bit] with
    | _ => simp
  · ext bit inside
    simp only [BitVec.getElem_and, BitVec.getElem_not, BitVec.getElem_zero]
    cases (state.back - state.front)[bit] with
    | _ => simp

/-- In no state of a deque that has been created do the functions agree. -/
theorem not_accounts
    (made : osDequeNew elementCount elementSize attr alloc context = some deque)
    (state : DequeState) : ¬deque.Accounts state := by
  intro accounts
  obtain ⟨-, -, valid, -⟩ := room_of_new made
  have sum := (accounts.2 .thread).1
  rw [osDequeGetCapacity_eq valid] at sum
  have whole : deque.osDequeGetCount state + deque.osDequeGetSpace state = deque.elementCount := by
    apply BitVec.eq_of_toNat_eq
    rw [BitVec.toNat_add, sum]
    exact Nat.mod_eq_of_lt deque.elementCount.isLt
  rw [count_add_space valid] at whole
  bv_omega

def fourElements : CreatedDeque := ⟨rtosDequeMarker, 0x20000000, 4, 4, 0, 0, 0x200000a0⟩

theorem not_accounts_four :
    osDequeNew 4 4 ⟨0, 0, 0, 0⟩ (fun _ => 0x20000000) .thread = some fourElements ∧
      ¬fourElements.Accounts ⟨2, 3, 1⟩ := by
  have made : osDequeNew 4 4 ⟨0, 0, 0, 0⟩ (fun _ => 0x20000000) .thread = some fourElements := rfl
  exact ⟨made, not_accounts made _⟩

theorem three_of_four :
    osDequeNew 4 4 ⟨0, 0, 0, 0⟩ (fun _ => 0x20000000) .thread = some fourElements ∧
      fourElements.osDequeGetCount fourElements.initial = 0 ∧
      fourElements.osDequeGetSpace fourElements.initial = 3 ∧
      fourElements.osDequeGetCapacity .thread = 4 ∧
      fourElements.run fourElements.initial (List.replicate 4 (.put .back)) = none ∧
      ¬fourElements.Accounts fourElements.initial := by
  refine ⟨rfl, rfl, rfl, rfl, rfl, ?_⟩
  intro accounts
  have sum := (accounts.2 .thread).1
  revert sum
  decide

theorem toNat_dequeInc {pos : Word} (power : deque.elementCount.toNat.isPowerOfTwo)
    (inside : pos.toNat < deque.elementCount.toNat) :
    (dequeInc deque.elementCount pos).toNat = Circular.inc deque.elementCount.toNat pos.toNat := by
  have small := deque.elementCount.isLt
  have one : (1 : Word).toNat = 1 := rfl
  rw [dequeInc, toNat_modulo power, BitVec.toNat_add, one]
  unfold Circular.inc
  by_cases last : pos.toNat + 1 = deque.elementCount.toNat
  · rw [if_pos last, last, Nat.mod_eq_of_lt small, Nat.mod_self]
  · rw [if_neg last, Nat.mod_eq_of_lt (by omega), Nat.mod_eq_of_lt (by omega)]

/-- Both positions are those of slots, and as many elements are between them as are stored. -/
structure Counted (deque : CreatedDeque) (state : DequeState) : Prop where
  front : state.front.toNat < deque.elementCount.toNat
  back : state.back.toNat < deque.elementCount.toNat
  stored : (Circular.count deque.elementCount.toNat state.front.toNat state.back.toNat : Int) =
    state.stored

theorem toNat_count (valid : deque.marker = rtosDequeMarker)
    (power : deque.elementCount.toNat.isPowerOfTwo) (counted : deque.Counted state) :
    (deque.osDequeGetCount state).toNat =
      Circular.count deque.elementCount.toNat state.front.toNat state.back.toNat := by
  have front := counted.front
  have back := counted.back
  have small := deque.elementCount.isLt
  rw [osDequeGetCount_eq valid, toNat_modulo power, BitVec.toNat_sub]
  obtain ⟨exponent, isPower⟩ := power
  rw [isPower] at front back small ⊢
  have below := (Nat.pow_lt_pow_iff_right (by decide)).mp small
  have divides : 2 ^ exponent ∣ 2 ^ 32 := Nat.pow_dvd_pow 2 (by omega)
  rw [Nat.mod_mod_of_dvd _ divides]
  obtain ⟨times, isMultiple⟩ := divides
  cases times with
  | zero => omega
  | succ times =>
      rw [Nat.mul_succ] at isMultiple
      rw [isMultiple]
      unfold Circular.count
      split
      · have around : 2 ^ exponent * times + 2 ^ exponent - state.front.toNat + state.back.toNat =
            state.back.toNat - state.front.toNat + 2 ^ exponent * (times + 1) := by
          rw [Nat.mul_succ]
          omega
        rw [around, Nat.add_mul_mod_self_left]
        exact Nat.mod_eq_of_lt (by omega)
      · have around : 2 ^ exponent * times + 2 ^ exponent - state.front.toNat + state.back.toNat =
            state.back.toNat + 2 ^ exponent - state.front.toNat + 2 ^ exponent * times := by
          omega
        rw [around, Nat.add_mul_mod_self_left]
        exact Nat.mod_eq_of_lt (by omega)

theorem counted_initial
    (made : osDequeNew elementCount elementSize attr alloc context = some deque)
    (power : deque.elementCount.toNat.isPowerOfTwo) : deque.Counted deque.initial := by
  obtain ⟨-, -, -, -, front, back⟩ := room_of_new made
  have positive := Nat.pos_of_isPowerOfTwo power
  rw [initial, front, back]
  refine ⟨positive, positive, ?_⟩
  simp [Circular.count]

theorem dequeIsFull_iff (power : deque.elementCount.toNat.isPowerOfTwo)
    (counted : deque.Counted state) :
    deque.dequeIsFull state ↔
      Circular.inc deque.elementCount.toNat state.back.toNat = state.front.toNat := by
  rw [dequeIsFull, decide_eq_true_iff, ← toNat_dequeInc power counted.back]
  exact ⟨fun same => congrArg _ same, BitVec.eq_of_toNat_eq⟩

theorem Counted.perform (power : deque.elementCount.toNat.isPowerOfTwo)
    (counted : deque.Counted state) {move : DequeMove} (isFifo : move.IsFifo) {next : DequeState}
    (moved : deque.perform state move = some next) : deque.Counted next := by
  have isStored := counted.stored
  cases move with
  | put side =>
      cases isFifo
      rw [CreatedDeque.perform] at moved
      split at moved
      · cases moved
      · next room =>
          cases moved
          have isNext := toNat_dequeInc power counted.back
          have notFull : Circular.inc deque.elementCount.toNat state.back.toNat ≠
              state.front.toNat := fun full => room ((dequeIsFull_iff power counted).mpr full)
          have grown := Circular.count_inc_back counted.front notFull
          refine ⟨counted.front, ?_, ?_⟩
          · rw [isNext]
            exact Circular.inc_lt counted.back
          · change (Circular.count _ state.front.toNat (dequeInc deque.elementCount state.back).toNat : Int) =
              state.stored + 1
            rw [isNext, grown]
            omega
  | get side =>
      cases isFifo
      rw [CreatedDeque.perform] at moved
      split at moved
      · cases moved
      · next some_ =>
          cases moved
          have isNext := toNat_dequeInc power counted.front
          have notEmpty : state.front.toNat ≠ state.back.toNat := fun empty =>
            some_ (decide_eq_true (BitVec.eq_of_toNat_eq empty))
          have shrunk := Circular.count_inc_front counted.front counted.back notEmpty
          refine ⟨?_, counted.back, ?_⟩
          · rw [isNext]
            exact Circular.inc_lt counted.front
          · change (Circular.count _ (dequeInc deque.elementCount state.front).toNat state.back.toNat : Int) =
              state.stored - 1
            rw [isNext]
            omega
  | reset =>
      cases moved
      have positive := Nat.pos_of_isPowerOfTwo power
      refine ⟨positive, positive, ?_⟩
      simp [Circular.count]

theorem Counted.run (power : deque.elementCount.toNat.isPowerOfTwo) {moves : List DequeMove}
    (counted : deque.Counted state) (isFifo : ∀ move ∈ moves, move.IsFifo) {next : DequeState}
    (reached : deque.run state moves = some next) : deque.Counted next := by
  induction moves generalizing state with
  | nil =>
      cases reached
      exact counted
  | cons move moves ih =>
      obtain ⟨between, moved, rest⟩ := Option.bind_eq_some_iff.mp reached
      have first := isFifo move List.mem_cons_self
      exact ih (counted.perform power first moved)
        (fun move member => isFifo move (List.mem_cons_of_mem _ member)) rest

theorem Counted.run_putBack (power : deque.elementCount.toNat.isPowerOfTwo) {times : Nat}
    (counted : deque.Counted state)
    (space : Circular.count deque.elementCount.toNat state.front.toNat state.back.toNat + times <
      deque.elementCount.toNat) :
    ∃ next, deque.run state (List.replicate times (.put .back)) = some next ∧
      deque.Counted next ∧ next.stored = state.stored + times := by
  induction times generalizing state with
  | zero => exact ⟨state, rfl, counted, by simp⟩
  | succ times ih =>
      have room : deque.dequeIsFull state = false := by
        rw [Bool.eq_false_iff]
        intro full
        have isLast := (Circular.count_eq_pred counted.front counted.back).mpr
          ((dequeIsFull_iff power counted).mp full)
        omega
      have moved : deque.perform state (.put .back) =
          some ⟨state.front, dequeInc deque.elementCount state.back, state.stored + 1⟩ := by
        rw [CreatedDeque.perform, room]
        rfl
      have put := counted.perform power (show (DequeMove.put .back).IsFifo from rfl) moved
      have wasStored := counted.stored
      have isStored : (Circular.count deque.elementCount.toNat state.front.toNat
          (dequeInc deque.elementCount state.back).toNat : Int) = state.stored + 1 := put.stored
      have less : Circular.count deque.elementCount.toNat state.front.toNat
          (dequeInc deque.elementCount state.back).toNat + times < deque.elementCount.toNat := by omega
      obtain ⟨next, reached, isCounted, stored⟩ := ih put less
      refine ⟨next, ?_, isCounted, ?_⟩
      · rw [List.replicate_succ, CreatedDeque.run, List.foldlM_cons, moved]
        exact reached
      · rw [stored]
        push_cast
        omega

/-- What the functions tell of a deque whose number of elements is a power of two: the number of
elements, and the space for all others but one. -/
theorem accounts_of_fifo
    (made : osDequeNew elementCount elementSize attr alloc context = some deque)
    (power : elementCount.toNat.isPowerOfTwo) {moves : List DequeMove}
    (isFifo : ∀ move ∈ moves, move.IsFifo)
    (reached : deque.run deque.initial moves = some state) :
    ((deque.osDequeGetCount state).toNat : Int) = state.stored ∧
      deque.osDequeGetCount state + deque.osDequeGetSpace state = elementCount - 1 ∧
      (dequeIsEmpty state → ∃ full,
        deque.run state (List.replicate (elementCount.toNat - 1) (.put .back)) = some full ∧
          deque.perform full (.put .back) = none) := by
  obtain ⟨-, -, valid, isCount, -⟩ := room_of_new made
  rw [← isCount] at power ⊢
  have counted := (counted_initial made power).run power isFifo reached
  refine ⟨?_, count_add_space valid, ?_⟩
  · rw [toNat_count valid power counted]
    exact counted.stored
  · intro empty
    have positive := Nat.pos_of_isPowerOfTwo power
    have same : state.front.toNat = state.back.toNat :=
      congrArg BitVec.toNat (of_decide_eq_true empty)
    have none_ := (Circular.count_eq_zero counted.front).mpr same
    have isStored := counted.stored
    obtain ⟨full, filled, isCounted, stored⟩ := @Counted.run_putBack _ _ power
      (deque.elementCount.toNat - 1) counted (by omega)
    refine ⟨full, filled, ?_⟩
    have fullStored := isCounted.stored
    have isFull := (dequeIsFull_iff power isCounted).mpr
      ((Circular.count_eq_pred isCounted.front isCounted.back).mp (by omega))
    rw [CreatedDeque.perform, isFull]
    rfl

end CreatedDeque

end PicoToolkit
