import Mathlib.Logic.Function.Iterate
import PicoToolkit.Cmsis.Deque

/-!
The creation of deques: the numbers that `osDequeNew` lets through, the memory that it asks for or
checks, and the positions that come after each other in the deque that it makes.
-/

namespace PicoToolkit

open Memory

structure DequeAttr where
  cbMem : Word
  cbSize : Word
  dqMem : Word
  dqSize : Word

/-- What `osDequeNew` puts into the control block. -/
structure CreatedDeque where
  marker : Word
  control : Word
  elementSize : Word
  elementCount : Word
  front : Word
  back : Word
  buffer : Word
  deriving DecidableEq

namespace CreatedDeque

/-- `sizeof(struct rtos_deque)`, where the `data` begins. -/
def size : Word := 160

def sizeofRtosMessage : Word := 16

def rtos2AllocDeque (alloc : Word → Word) (queueSize : Word) : Word := alloc (size + queueSize)

/-- The control block and the memory for the elements: one piece from the allocator, which adds the
size of the control block once more, or the two pieces of the caller. -/
def room (elementCount elementSize : Word) (attr : DequeAttr) (alloc : Word → Word) :
    Option (Word × Word) :=
  if attr.cbMem = 0 ∧ attr.dqMem = 0 then
    let control := rtos2AllocDeque alloc (size + elementSize * elementCount)
    if control = 0 then none else some (control, control + size)
  else if attr.cbMem ≠ 0 ∧ attr.dqMem ≠ 0 then
    if attr.cbSize < size ∨ attr.dqSize < sizeofRtosMessage + elementSize * elementCount then none
    else some (attr.cbMem, attr.dqMem)
  else none

/-- The event flags are inside the control block and a thread may add to the resources of the kernel, so
nothing after the memory can fail. -/
def osDequeNew (elementCount elementSize : Word) (attr : DequeAttr) (alloc : Word → Word)
    (context : Context) : Option CreatedDeque :=
  if osKernelContextIsValid false 0 context ≠ .osOK then none
  else if modulo elementSize elementSize ≠ 0 then none
  else
    (room elementCount elementSize attr alloc).map fun (control, data) =>
      ⟨rtosDequeMarker, control, elementSize, elementCount, 0, 0, data⟩

/-- How many bytes there are for the elements: as many as the caller supplied, or what is left of the
allocated memory after the control block. -/
def dataArea (elementCount elementSize : Word) (attr : DequeAttr) : Nat :=
  if attr.dqMem = 0 then (size + (size + elementSize * elementCount)).toNat - size.toNat
  else attr.dqSize.toNat

/-- From each position the increment goes through all the positions, in as many steps as there are. -/
def Cycles (deque : CreatedDeque) : Prop :=
  (∀ pos : Word, pos.toNat < deque.elementCount.toNat →
    (dequeInc deque.elementCount pos).toNat < deque.elementCount.toNat) ∧
  ∀ start slot : Word, start.toNat < deque.elementCount.toNat →
    slot.toNat < deque.elementCount.toNat →
    ∃ steps < deque.elementCount.toNat, (dequeInc deque.elementCount)^[steps] start = slot

/-- What is made is usable, and the size of the elements never keeps a deque for a power of two of them
from being made. -/
def Usable (elementCount elementSize : Word) (attr : DequeAttr) (alloc : Word → Word)
    (context : Context) : Prop :=
  (∀ deque, osDequeNew elementCount elementSize attr alloc context = some deque →
    deque.Cycles ∧
      elementCount.toNat * elementSize.toNat ≤ dataArea elementCount elementSize attr) ∧
  (elementCount.toNat.isPowerOfTwo → context = .thread →
    (room elementCount elementSize attr alloc).isSome →
    (osDequeNew elementCount elementSize attr alloc context).isSome)

variable {elementCount elementSize : Word} {attr : DequeAttr} {alloc : Word → Word}
  {context : Context} {deque : CreatedDeque}

theorem toNat_modulo {x y : Word} (power : y.toNat.isPowerOfTwo) :
    (modulo x y).toNat = x.toNat % y.toNat := by
  obtain ⟨exponent, isPower⟩ := power
  have positive := Nat.two_pow_pos exponent
  have pred : (y - 1).toNat = 2 ^ exponent - 1 := by
    rw [← isPower]
    bv_omega
  rw [modulo, BitVec.toNat_and, pred, Nat.and_two_pow_sub_one_eq_mod, isPower]

theorem modulo_self_iff (x : Word) : modulo x x = 0 ↔ x = 0 ∨ x.toNat.isPowerOfTwo := by
  by_cases null : x = 0
  · rw [null]
    exact iff_of_true (by decide) (.inl rfl)
  · have positive : x.toNat ≠ 0 := fun zero => null (BitVec.eq_of_toNat_eq zero)
    have pred : (x - 1).toNat = x.toNat - 1 := by bv_omega
    rw [← Nat.and_sub_one_eq_zero_iff_isPowerOfTwo positive, ← pred, ← BitVec.toNat_and]
    simp only [null, false_or]
    exact ⟨fun zero => congrArg BitVec.toNat zero, fun zero => BitVec.eq_of_toNat_eq zero⟩

theorem isPowerOfTwo_of_keeps {number : Nat} (positive : number ≠ 0)
    (keeps : ∀ smaller < number, smaller &&& (number - 1) = smaller) : number.isPowerOfTwo := by
  have most := Nat.log2_self_le positive
  have least := @Nat.lt_log2_self number
  have ones := keeps (2 ^ number.log2 - 1) (by
    have := Nat.two_pow_pos number.log2
    omega)
  rw [Nat.and_comm, Nat.and_two_pow_sub_one_eq_mod] at ones
  refine ⟨number.log2, ?_⟩
  rw [Nat.pow_succ] at least
  by_contra different
  have rest : number - 1 = 2 ^ number.log2 + (number - 1 - 2 ^ number.log2) := by omega
  rw [rest, Nat.add_mod_left, Nat.mod_eq_of_lt (by omega)] at ones
  omega

theorem isPowerOfTwo_of_cycles (cycles : deque.Cycles) (some_ : deque.elementCount ≠ 0) :
    deque.elementCount.toNat.isPowerOfTwo := by
  have positive : deque.elementCount.toNat ≠ 0 := fun zero => some_ (BitVec.eq_of_toNat_eq zero)
  have pred : (deque.elementCount - 1).toNat = deque.elementCount.toNat - 1 := by bv_omega
  have small := deque.elementCount.isLt
  by_cases one : deque.elementCount.toNat = 1
  · rw [one]
    exact Nat.isPowerOfTwo_one
  · apply isPowerOfTwo_of_keeps positive
    intro slot below
    have isSlot : (BitVec.ofNat 32 slot).toNat = slot := by
      rw [BitVec.toNat_ofNat]
      exact Nat.mod_eq_of_lt (by omega)
    -- another position, so that the slot is reached by a step
    have other : ∃ start : Word, start.toNat < deque.elementCount.toNat ∧ start.toNat ≠ slot := by
      by_cases first : slot = 0
      · exact ⟨1, show 1 < _ by omega, show 1 ≠ slot by omega⟩
      · exact ⟨0, show 0 < _ by omega, fun zero => first zero.symm⟩
    obtain ⟨start, inside, different⟩ := other
    obtain ⟨steps, -, reached⟩ := cycles.2 start (BitVec.ofNat 32 slot) inside (by omega)
    cases steps with
    | zero =>
        rw [Function.iterate_zero_apply] at reached
        rw [reached] at different
        exact absurd isSlot different
    | succ steps =>
        rw [Function.iterate_succ_apply'] at reached
        have masked : BitVec.ofNat 32 slot &&& (deque.elementCount - 1) = BitVec.ofNat 32 slot := by
          rw [← reached, dequeInc, modulo, BitVec.and_assoc, BitVec.and_self]
        have same := congrArg BitVec.toNat masked
        rwa [BitVec.toNat_and, pred, isSlot] at same

/-- Where the number of elements is a power of two, the increment is that of the numbers modulo it. -/
theorem toNat_iterate {start : Word} (power : deque.elementCount.toNat.isPowerOfTwo)
    (inside : start.toNat < deque.elementCount.toNat) (steps : Nat) :
    ((dequeInc deque.elementCount)^[steps] start).toNat = (start.toNat + steps) % deque.elementCount.toNat := by
  have small := deque.elementCount.isLt
  induction steps with
  | zero => exact (Nat.mod_eq_of_lt inside).symm
  | succ steps ih =>
      have bound := Nat.mod_lt (start.toNat + steps) (Nat.pos_of_isPowerOfTwo power)
      have one : (1 : Word).toNat = 1 := rfl
      rw [Function.iterate_succ_apply', dequeInc, toNat_modulo power, BitVec.toNat_add, ih, one,
        Nat.mod_eq_of_lt (show _ + 1 < 2 ^ 32 by omega), Nat.mod_add_mod, Nat.add_assoc]

theorem cycles_of_isPowerOfTwo (power : deque.elementCount.toNat.isPowerOfTwo) : deque.Cycles := by
  have positive := Nat.pos_of_isPowerOfTwo power
  constructor
  · intro pos inside
    rw [dequeInc, toNat_modulo power]
    exact Nat.mod_lt _ positive
  · intro start slot startInside slotInside
    refine ⟨(slot.toNat + (deque.elementCount.toNat - start.toNat)) % deque.elementCount.toNat,
      Nat.mod_lt _ positive, ?_⟩
    apply BitVec.eq_of_toNat_eq
    have around : start.toNat + (slot.toNat + (deque.elementCount.toNat - start.toNat)) =
        slot.toNat + deque.elementCount.toNat := by omega
    rw [toNat_iterate power startInside, Nat.add_mod_mod, around, Nat.add_mod_right,
      Nat.mod_eq_of_lt slotInside]

theorem cycles_iff :
    deque.Cycles ↔ deque.elementCount = 0 ∨ deque.elementCount.toNat.isPowerOfTwo := by
  constructor
  · intro cycles
    by_cases null : deque.elementCount = 0
    · exact .inl null
    · exact .inr (isPowerOfTwo_of_cycles cycles null)
  · rintro (null | power)
    · have zero : deque.elementCount.toNat = 0 := by rw [null]; rfl
      constructor
      · intro pos inside
        omega
      · intro start slot inside
        omega
    · exact cycles_of_isPowerOfTwo power

theorem product_le {count size : Nat} (countPower : count.isPowerOfTwo)
    (sizePower : size = 0 ∨ size.isPowerOfTwo) (small : count * size < 2 ^ 32) :
    count * size ≤ 2 ^ 31 := by
  obtain ⟨exponent, rfl⟩ := countPower
  rcases sizePower with rfl | ⟨other, rfl⟩
  · omega
  · rw [← Nat.pow_add] at small ⊢
    have below := (Nat.pow_lt_pow_iff_right (by decide)).mp small
    exact Nat.pow_le_pow_right (by decide) (by omega)

theorem osDequeNew_thread : osDequeNew elementCount elementSize attr alloc .thread =
    if modulo elementSize elementSize ≠ 0 then none
    else (room elementCount elementSize attr alloc).map fun (control, data) =>
      ⟨rtosDequeMarker, control, elementSize, elementCount, 0, 0, data⟩ :=
  rfl

theorem room_of_new
    (made : osDequeNew elementCount elementSize attr alloc context = some deque) :
    modulo elementSize elementSize = 0 ∧
      room elementCount elementSize attr alloc = some (deque.control, deque.buffer) ∧
      deque.marker = rtosDequeMarker ∧ deque.elementCount = elementCount ∧
      deque.front = 0 ∧ deque.back = 0 := by
  simp only [osDequeNew] at made
  split at made
  · cases made
  · split at made
    · cases made
    · next passes =>
        obtain ⟨⟨control, data⟩, isRoom, built⟩ := Option.map_eq_some_iff.mp made
        cases built
        exact ⟨Decidable.not_not.mp passes, isRoom, rfl, rfl, rfl, rfl⟩

theorem room_fits (isRoom : (room elementCount elementSize attr alloc).isSome)
    (small : elementCount.toNat * elementSize.toNat ≤ 2 ^ 31) :
    elementCount.toNat * elementSize.toNat ≤ dataArea elementCount elementSize attr := by
  have isSize : size.toNat = 160 := rfl
  have isHeader : sizeofRtosMessage.toNat = 16 := rfl
  have product : (elementSize * elementCount).toNat = elementCount.toNat * elementSize.toNat := by
    rw [BitVec.toNat_mul, Nat.mul_comm]
    apply Nat.mod_eq_of_lt
    omega
  simp only [room] at isRoom
  rw [dataArea]
  split at isRoom
  · next none_ =>
      rw [if_pos none_.2, BitVec.toNat_add, BitVec.toNat_add, product, isSize]
      omega
  · split at isRoom
    · next both =>
        rw [if_neg both.2]
        split at isRoom
        · cases isRoom
        · next enough =>
            have large := BitVec.not_lt.mp fun less => enough (Or.inr less)
            rw [BitVec.le_def, BitVec.toNat_add, product, isHeader] at large
            omega
    · cases isRoom

/-- The numbers that the creation gets right.  The check is made on the size of the elements instead of
their number. -/
def SizesRight (elementCount elementSize : Word) : Prop :=
  if elementSize = 0 ∨ elementSize.toNat.isPowerOfTwo then
    elementCount = 0 ∨ (elementCount.toNat.isPowerOfTwo ∧
      elementCount.toNat * elementSize.toNat < 2 ^ 32)
  else ¬elementCount.toNat.isPowerOfTwo

theorem usable_of_right (right : SizesRight elementCount elementSize) :
    Usable elementCount elementSize attr alloc context := by
  rw [SizesRight] at right
  constructor
  · intro deque made
    obtain ⟨passes, isRoom, -, isCount, -⟩ := room_of_new made
    have sizePower := (modulo_self_iff elementSize).mp passes
    rw [if_pos sizePower] at right
    rw [cycles_iff, isCount]
    rcases right with rfl | ⟨countPower, small⟩
    · exact ⟨.inl rfl, by simp⟩
    · refine ⟨.inr countPower, ?_⟩
      refine room_fits (Option.isSome_iff_exists.mpr ⟨_, isRoom⟩) (product_le countPower ?_ small)
      rcases sizePower with rfl | power
      · exact .inl rfl
      · exact .inr power
  · rintro countPower rfl isRoom
    have passes : modulo elementSize elementSize = 0 := by
      rw [modulo_self_iff]
      by_contra refused
      rw [if_neg refused] at right
      exact right countPower
    rw [osDequeNew_thread, if_neg (not_not_intro passes), Option.isSome_map]
    exact isRoom

/-- Whatever memory there is, deques are usable and sizes accepted exactly for the numbers that are
right. -/
theorem usable_iff (elementCount elementSize : Word) :
    (∀ attr alloc context, Usable elementCount elementSize attr alloc context) ↔
      SizesRight elementCount elementSize := by
  constructor
  · intro usable
    obtain ⟨returned, accepted⟩ := usable ⟨0, 0, 0, 0⟩ (fun _ => 0x20000000) .thread
    have isRoom : room elementCount elementSize ⟨0, 0, 0, 0⟩ (fun _ => 0x20000000) =
        some (0x20000000, 0x20000000 + size) := rfl
    rw [isRoom] at accepted
    rw [osDequeNew_thread, isRoom] at returned accepted
    rw [SizesRight]
    split
    · next sizePower =>
        rw [if_neg (not_not_intro ((modulo_self_iff elementSize).mpr sizePower))] at returned
        obtain ⟨cycles, fits⟩ := returned _ rfl
        rcases cycles_iff.mp cycles with null | countPower
        · exact .inl null
        · refine .inr ⟨countPower, ?_⟩
          rw [dataArea, if_pos rfl] at fits
          have bound := (size + (size + elementSize * elementCount)).isLt
          omega
    · next refused =>
        intro countPower
        have isSome := accepted countPower rfl rfl
        rw [if_pos fun passes => refused ((modulo_self_iff elementSize).mp passes)] at isSome
        cases isSome
  · intro right attr alloc context
    exact usable_of_right right

/-- Three elements of four bytes are accepted, although two of the slots are never reached; four
elements of twelve bytes are refused. -/
theorem three_elements_unusable :
    (∃ deque, osDequeNew 3 4 ⟨0, 0, 0, 0⟩ (fun _ => 0x20000000) .thread = some deque ∧
      ¬deque.Cycles) ∧
    (room 4 12 ⟨0, 0, 0, 0⟩ fun _ => 0x20000000).isSome ∧
      osDequeNew 4 12 ⟨0, 0, 0, 0⟩ (fun _ => 0x20000000) .thread = none := by
  refine ⟨⟨_, rfl, ?_⟩, rfl, rfl⟩
  rw [cycles_iff]
  decide

end CreatedDeque

end PicoToolkit
