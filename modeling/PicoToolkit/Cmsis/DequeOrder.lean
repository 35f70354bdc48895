import PicoToolkit.Cmsis.Deque
import PicoToolkit.Library.Circular

/-!
What a deque is for: a sequence with two ends.  Putting at the back and getting from the front keep to
it at every position of the circular buffer; no copy leaves the buffer.
-/

namespace PicoToolkit

open Memory Transition Interleaving

def DequeSection.apply (capacity : Nat) (elements : List (List (BitVec 8))) :
    DequeSection → Option (List (List (BitVec 8)))
  | .put .front element => if elements.length < capacity then some (element :: elements) else none
  | .put .back element => if elements.length < capacity then some (elements ++ [element]) else none
  | .get .front element => if elements.head? = some element then some elements.tail else none
  | .get .back element => if elements.getLast? = some element then some elements.dropLast else none
  | .reset => some []

namespace RtosDeque

variable {deque : RtosDeque} {data : DequeData} {element : Bytes} {pos other : Word}

def size (deque : RtosDeque) : Nat := deque.elementCount.toNat

def elementAt (deque : RtosDeque) (memory : Bytes) (index : Nat) : List (BitVec 8) :=
  bytesAt memory (deque.buffer.toNat + index * deque.elementSize.toNat) deque.elementSize.toNat

def contents (deque : RtosDeque) (data : DequeData) : List (List (BitVec 8)) :=
  Circular.contents (deque.elementAt data.memory) deque.size data.front.toNat data.back.toNat

theorem toNat_modulo (deque : RtosDeque) (x : Word) :
    (modulo x deque.elementCount).toNat = x.toNat % deque.size := by
  obtain ⟨exponent, power⟩ := deque.power
  have positive := deque.atLeastTwo
  have pred : (deque.elementCount - 1).toNat = 2 ^ exponent - 1 := by
    rw [← power]
    bv_omega
  rw [modulo, BitVec.toNat_and, pred, Nat.and_two_pow_sub_one_eq_mod, size, power]

theorem modulo_lt (deque : RtosDeque) (x : Word) :
    (modulo x deque.elementCount).toNat < deque.size := by
  have positive := deque.atLeastTwo
  rw [toNat_modulo]
  apply Nat.mod_lt
  simp only [size]
  omega

theorem toNat_modulo_succ (below : pos.toNat < deque.size) :
    (modulo (pos + 1) deque.elementCount).toNat = Circular.inc deque.size pos.toNat := by
  have small := deque.elementCount.isLt
  have one : (1 : Word).toNat = 1 := rfl
  rw [toNat_modulo, BitVec.toNat_add, one]
  simp only [size] at below ⊢
  unfold Circular.inc
  by_cases last : pos.toNat + 1 = deque.elementCount.toNat
  · rw [if_pos last, last, Nat.mod_eq_of_lt small, Nat.mod_self]
  · rw [if_neg last, Nat.mod_eq_of_lt (by omega), Nat.mod_eq_of_lt (by omega)]

theorem isFull_iff (back : data.back.toNat < deque.size) :
    deque.isFull data ↔ Circular.inc deque.size data.back.toNat = data.front.toNat := by
  rw [isFull, decide_eq_true_iff, ← toNat_modulo_succ back]
  exact ⟨fun same => congrArg _ same, BitVec.eq_of_toNat_eq⟩

theorem isEmpty_iff : isEmpty data ↔ data.front.toNat = data.back.toNat := by
  rw [isEmpty, decide_eq_true_iff]
  exact ⟨fun same => congrArg _ same, BitVec.eq_of_toNat_eq⟩

theorem toNat_slot (below : pos.toNat < deque.size) :
    (deque.slot pos).toNat = deque.buffer.toNat + pos.toNat * deque.elementSize.toNat ∧
      (pos.toNat + 1) * deque.elementSize.toNat ≤ deque.size * deque.elementSize.toNat := by
  have fits := deque.fits
  have inside : (pos.toNat + 1) * deque.elementSize.toNat ≤
      deque.size * deque.elementSize.toNat := Nat.mul_le_mul_right _ below
  refine ⟨?_, inside⟩
  have start := deque.buffer.isLt
  rw [Nat.succ_mul] at inside
  simp only [size] at inside
  rw [slot, BitVec.toNat_add, BitVec.toNat_mul]
  by_cases empty : deque.elementSize.toNat = 0
  · rw [empty]
    simpa using start
  · rw [Nat.mod_eq_of_lt (show pos.toNat * deque.elementSize.toNat < 2 ^ 32 by omega)]
    apply Nat.mod_eq_of_lt
    omega

theorem slots_apart {index : Nat} (different : index ≠ pos.toNat) :
    index * deque.elementSize.toNat + deque.elementSize.toNat ≤
        pos.toNat * deque.elementSize.toNat ∨
      pos.toNat * deque.elementSize.toNat + deque.elementSize.toNat ≤
        index * deque.elementSize.toNat := by
  rw [← Nat.succ_mul, ← Nat.succ_mul]
  rcases Nat.lt_or_gt_of_ne different with less | more
  · exact Or.inl (Nat.mul_le_mul_right _ less)
  · exact Or.inr (Nat.mul_le_mul_right _ more)

theorem elementAt_dequePut (below : pos.toNat < deque.size) :
    deque.elementAt (deque.dequePut data element pos).memory pos.toNat = deque.bytes element := by
  rw [elementAt, dequePut, (toNat_slot below).1]
  exact bytesAt_memcpy

theorem elementAt_dequePut_of_ne (below : pos.toNat < deque.size) {index : Nat}
    (different : index ≠ pos.toNat) :
    deque.elementAt (deque.dequePut data element pos).memory index =
      deque.elementAt data.memory index := by
  have apart := @slots_apart deque pos index different
  apply bytesAt_congr
  intro address above beyond
  rw [dequePut, (toNat_slot below).1]
  apply memcpy_of_apart
  omega

theorem bytes_dequeGet (below : pos.toNat < deque.size) :
    deque.bytes (deque.dequeGet data element pos).2 = deque.elementAt data.memory pos.toNat := by
  rw [bytes, dequeGet, (toNat_slot below).1]
  exact bytesAt_memcpy

/-- The positions are those of slots, each copy is from or to a slot, and the memory outside the buffer
is as it was. -/
structure Bounded (deque : RtosDeque) (initial : Bytes) (data : DequeData) : Prop where
  front : data.front.toNat < deque.size
  back : data.back.toNat < deque.size
  copies : ∀ address ∈ data.copies, deque.buffer.toNat ≤ address.toNat ∧
    address.toNat + deque.elementSize.toNat ≤
      deque.buffer.toNat + deque.size * deque.elementSize.toNat
  outside : ∀ address, (address < deque.buffer.toNat ∨
      deque.buffer.toNat + deque.size * deque.elementSize.toNat ≤ address) →
    data.memory address = initial address

section Bounds

variable {initial : Bytes}

theorem Bounded.dequePut (bounded : deque.Bounded initial data) (element : Bytes)
    (below : pos.toNat < deque.size) : deque.Bounded initial (deque.dequePut data element pos) := by
  obtain ⟨place, inside⟩ := toNat_slot below
  rw [Nat.succ_mul] at inside
  constructor
  · exact bounded.front
  · exact bounded.back
  · intro address member
    rcases List.mem_append.mp member with old | new
    · exact bounded.copies address old
    · rw [List.mem_singleton.mp new, place]
      omega
  · intro address beyond
    rw [← bounded.outside address beyond, RtosDeque.dequePut, place]
    apply memcpy_of_apart
    omega

theorem Bounded.dequeGet (bounded : deque.Bounded initial data) (element : Bytes)
    (below : pos.toNat < deque.size) :
    deque.Bounded initial (deque.dequeGet data element pos).1 := by
  obtain ⟨place, inside⟩ := toNat_slot below
  rw [Nat.succ_mul] at inside
  constructor
  · exact bounded.front
  · exact bounded.back
  · intro address member
    rcases List.mem_append.mp member with old | new
    · exact bounded.copies address old
    · rw [List.mem_singleton.mp new, place]
      omega
  · exact bounded.outside

theorem Bounded.move {front back : Word} (bounded : deque.Bounded initial data)
    (sections : List DequeSection) (belowFront : front.toNat < deque.size)
    (belowBack : back.toNat < deque.size) :
    deque.Bounded initial { data with front := front, back := back, sections := sections } :=
  ⟨belowFront, belowBack, bounded.copies, bounded.outside⟩

theorem Bounded.transfer (bounded : deque.Bounded initial data) (access : DequeAccess) :
    deque.Bounded initial (deque.transfer access data).1 := by
  obtain ⟨puts, side, element, timeout, context⟩ := access
  cases puts with
  | true =>
      cases side with
      | front =>
          have below := deque.modulo_lt (data.front - 1 + 1)
          have moved := (bounded.move data.sections below bounded.back).dequePut element below
          exact moved.move _ moved.front moved.back
      | back =>
          have put := bounded.dequePut element bounded.back
          exact put.move _ put.front (deque.modulo_lt _)
  | false =>
      cases side with
      | front =>
          have got := bounded.dequeGet element bounded.front
          exact got.move _ (deque.modulo_lt _) got.back
      | back =>
          have got := bounded.dequeGet element bounded.back
          have below := deque.modulo_lt (data.back + 1)
          have again := (got.move data.sections got.front below).dequeGet
            (deque.dequeGet data element data.back).2 below
          exact again.move _ again.front again.back

end Bounds

theorem transfer_element (access : DequeAccess) :
    (access.puts → (deque.transfer access data).2 = access.element) ∧
      ∀ index, deque.elementSize.toNat ≤ index →
        (deque.transfer access data).2 index = access.element index := by
  obtain ⟨puts, side, element, timeout, context⟩ := access
  have keeps : ∀ (data : DequeData) (element : Bytes) (pos : Word) index,
      deque.elementSize.toNat ≤ index → (deque.dequeGet data element pos).2 index = element index := by
    intro data element pos index beyond
    apply memcpy_of_apart
    omega
  cases puts with
  | true =>
      cases side with
      | _ => exact ⟨fun _ => rfl, fun _ _ => rfl⟩
  | false =>
      refine ⟨nofun, fun index beyond => ?_⟩
      cases side with
      | front => exact keeps _ _ _ _ beyond
      | back => exact (keeps _ _ _ _ beyond).trans (keeps _ _ _ _ beyond)

section Sections

variable {initial : Bytes}

theorem contents_putBack (bounded : deque.Bounded initial data) (room : deque.isFull data = false) :
    deque.contents (deque.putBack data element).1 =
      deque.contents data ++ [deque.bytes element] := by
  have notFull : Circular.inc deque.size data.back.toNat ≠ data.front.toNat := by
    intro full
    rw [(isFull_iff bounded.back).mpr full] at room
    cases room
  have place : (deque.putBack data element).1.back.toNat = Circular.inc deque.size data.back.toNat :=
    toNat_modulo_succ bounded.back
  have grown := @Circular.contents_inc_back _
    (deque.elementAt (deque.dequePut data element data.back).memory) _ _ _ bounded.front
    bounded.back notFull
  rw [elementAt_dequePut bounded.back] at grown
  have kept : Circular.contents (deque.elementAt (deque.dequePut data element data.back).memory)
      deque.size data.front.toNat data.back.toNat = deque.contents data := by
    apply Circular.contents_congr
    intro index inside
    exact elementAt_dequePut_of_ne bounded.back
      (Circular.place_ne_back bounded.front bounded.back inside)
  rw [contents, place]
  rw [kept] at grown
  exact grown

theorem contents_getFront (bounded : deque.Bounded initial data) (some_ : isEmpty data = false) :
    deque.contents data = deque.bytes (deque.getFront data element).2 ::
      deque.contents (deque.getFront data element).1 := by
  have notEmpty : data.front.toNat ≠ data.back.toNat := by
    intro empty
    rw [isEmpty_iff.mpr empty] at some_
    cases some_
  have place : (deque.getFront data element).1.front.toNat =
      Circular.inc deque.size data.front.toNat := toNat_modulo_succ bounded.front
  have got : deque.bytes (deque.getFront data element).2 =
      deque.elementAt data.memory data.front.toNat := bytes_dequeGet bounded.front
  rw [got, contents, contents, place]
  exact Circular.contents_front bounded.front bounded.back notEmpty

theorem contents_getBack (bounded : deque.Bounded initial data) (some_ : isEmpty data = false)
    (two : deque.size = 2) :
    deque.contents data = deque.contents (deque.getBack data element).1 ++
      [deque.bytes (deque.getBack data element).2] := by
  have notEmpty : data.front.toNat ≠ data.back.toNat := by
    intro empty
    rw [isEmpty_iff.mpr empty] at some_
    cases some_
  have back := bounded.back
  have place : (modulo (data.back + 1) deque.elementCount).toNat =
      Circular.dec deque.size data.back.toNat := by
    rw [toNat_modulo_succ bounded.back, two]
    unfold Circular.inc Circular.dec
    split
    · split
      · omega
      · omega
    · split
      · omega
      · omega
  have got : deque.bytes (deque.getBack data element).2 =
      deque.elementAt data.memory (Circular.dec deque.size data.back.toNat) := by
    rw [← place]
    exact bytes_dequeGet (deque.modulo_lt _)
  have shrunk := @Circular.contents_back _ (deque.elementAt data.memory) _ _ _ bounded.front
    bounded.back notEmpty
  rw [← place] at shrunk
  rw [got, ← place]
  exact shrunk

theorem length_contents (bounded : deque.Bounded initial data) :
    ((deque.contents data).length = 0 ↔ isEmpty data) ∧
      ((deque.contents data).length + 1 = deque.size ↔ deque.isFull data) ∧
      (deque.contents data).length < deque.size := by
  rw [contents, Circular.length_contents]
  refine ⟨?_, ?_, Circular.count_lt bounded.front bounded.back⟩
  · rw [Circular.count_eq_zero bounded.front, isEmpty_iff]
  · rw [Circular.count_eq_pred bounded.front bounded.back, isFull_iff bounded.back]

end Sections

end RtosDeque

end PicoToolkit
