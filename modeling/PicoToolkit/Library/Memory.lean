import Mathlib.Algebra.Group.Nat.Defs
import Mathlib.Data.List.Nodup
import Mathlib.Data.List.Perm.Subperm
import Mathlib.Logic.Function.Basic

/-!
Memory by bytes: words of four bytes, the least significant one first, and copies of bytes from one
place to another.
-/

namespace Memory

abbrev Bytes : Type := Nat → BitVec 8

variable {memory target source : Bytes} {address other : Nat} {word : BitVec 32}

def load (memory : Bytes) (address : Nat) : BitVec 32 :=
  memory (address + 3) ++ memory (address + 2) ++ memory (address + 1) ++ memory address

def store (memory : Bytes) (address : Nat) (word : BitVec 32) : Bytes := fun other =>
  if address ≤ other ∧ other < address + 4 then word.extractLsb' (8 * (other - address)) 8
  else memory other

def memcpy (target : Bytes) (start : Nat) (source : Bytes) (begin_ : Nat) : Nat → Bytes
  | 0 => target
  | count + 1 =>
      Function.update (memcpy target start source begin_ count) (start + count)
        (source (begin_ + count))

def read (memory : Bytes) (address : Nat) : (count : Nat) → BitVec (8 * count)
  | 0 => 0
  | count + 1 => (memory (address + count) ++ read memory address count).cast (by omega)

def write (memory : Bytes) (address count : Nat) (value : BitVec (8 * count)) : Bytes := fun other =>
  if address ≤ other ∧ other < address + count then value.extractLsb' (8 * (other - address)) 8
  else memory other

def bytesAt (memory : Bytes) (address count : Nat) : List (BitVec 8) :=
  (List.range count).map fun index => memory (address + index)

theorem store_of_apart (apart : other < address ∨ address + 4 ≤ other) :
    store memory address word other = memory other := by
  rw [store, if_neg (by omega)]

theorem load_congr {changed : Bytes}
    (same : ∀ other, address ≤ other → other < address + 4 → changed other = memory other) :
    load changed address = load memory address := by
  simp only [load]
  rw [same (address + 3) (by omega) (by omega), same (address + 2) (by omega) (by omega),
    same (address + 1) (by omega) (by omega), same address (by omega) (by omega)]

@[simp]
theorem load_store_self : load (store memory address word) address = word := by
  have inside : ∀ index < 4, store memory address word (address + index) =
      word.extractLsb' (8 * index) 8 := by
    intro index below
    rw [store, if_pos (by omega), Nat.add_sub_cancel_left]
  simp only [load]
  rw [inside 3 (by decide), inside 2 (by decide), inside 1 (by decide)]
  have first := inside 0 (by decide)
  rw [Nat.add_zero] at first
  rw [first]
  ext index bound
  simp only [BitVec.getElem_append, BitVec.getElem_extractLsb']
  rw [← BitVec.getLsbD_eq_getElem bound]
  split
  · rw [show 8 * 0 + index = index by omega]
  · split
    · rw [show 8 * 1 + (index - 8) = index by omega]
    · split
      · rw [show 8 * 2 + (index - 8 - 8) = index by omega]
      · rw [show 8 * 3 + (index - 8 - 8 - 8) = index by omega]

theorem load_store_of_apart (apart : other + 4 ≤ address ∨ address + 4 ≤ other) :
    load (store memory address word) other = load memory other :=
  load_congr fun _ above below => store_of_apart (by omega)

theorem memcpy_apply {start begin_ count : Nat} :
    memcpy target start source begin_ count other =
      if start ≤ other ∧ other < start + count then source (begin_ + (other - start))
      else target other := by
  induction count with
  | zero => rw [memcpy, if_neg (by omega)]
  | succ count ih =>
      rw [memcpy, Function.update_apply, ih]
      by_cases last : other = start + count
      · rw [if_pos last, if_pos (by omega), last, Nat.add_sub_cancel_left]
      · rw [if_neg last]
        exact if_congr (by omega) rfl rfl

theorem memcpy_of_apart {start begin_ count : Nat} (apart : other < start ∨ start + count ≤ other) :
    memcpy target start source begin_ count other = target other := by
  rw [memcpy_apply, if_neg (by omega)]

theorem bytesAt_memcpy {start begin_ count : Nat} :
    bytesAt (memcpy target start source begin_ count) start count = bytesAt source begin_ count := by
  refine List.map_congr_left fun index inside => ?_
  have below := List.mem_range.mp inside
  rw [memcpy_apply, if_pos (by omega), Nat.add_sub_cancel_left]

theorem bytesAt_eq_iff {begin_ count : Nat} :
    bytesAt source begin_ count = bytesAt target begin_ count ↔
      ∀ index < count, source (begin_ + index) = target (begin_ + index) := by
  simp [bytesAt]

theorem memcpy_congr {first second : Bytes} {start begin_ count : Nat}
    (same : bytesAt first begin_ count = bytesAt second begin_ count) :
    memcpy target start first begin_ count = memcpy target start second begin_ count := by
  funext other
  rw [memcpy_apply, memcpy_apply]
  by_cases inside : start ≤ other ∧ other < start + count
  · rw [if_pos inside, if_pos inside]
    exact bytesAt_eq_iff.mp same _ (by omega)
  · rw [if_neg inside, if_neg inside]

theorem bytesAt_congr {changed : Bytes} {count : Nat}
    (same : ∀ other, address ≤ other → other < address + count → changed other = memory other) :
    bytesAt changed address count = bytesAt memory address count := by
  refine List.map_congr_left fun index inside => ?_
  have below := List.mem_range.mp inside
  exact same _ (by omega) (by omega)

@[simp]
theorem length_bytesAt {count : Nat} : (bytesAt memory address count).length = count := by
  simp [bytesAt]

theorem length_mul_le_of_apart {pieces : List Nat} {begin_ size room : Nat}
    (apart : pieces.Pairwise fun piece other => piece + size ≤ other ∨ other + size ≤ piece)
    (inside : ∀ piece ∈ pieces, begin_ ≤ piece ∧ piece + size ≤ begin_ + room) :
    pieces.length * size ≤ room := by
  have distinct : (pieces.flatMap fun piece => List.range' piece size).Nodup := by
    rw [List.nodup_flatMap]
    constructor
    · intro piece _
      exact List.nodup_range'
    · refine apart.imp fun {piece other} apart => ?_
      intro place first second
      rw [List.mem_range'_1] at first second
      omega
  have covered : (pieces.flatMap fun piece => List.range' piece size) ⊆ List.range' begin_ room := by
    intro place member
    obtain ⟨piece, isPiece, within⟩ := List.mem_flatMap.mp member
    have bounds := inside piece isPiece
    rw [List.mem_range'_1] at within ⊢
    omega
  have less := (List.subperm_of_subset distinct covered).length_le
  rw [List.length_flatMap, List.length_range'] at less
  simpa using less

section Alignment

theorem and_not_low (word : BitVec 32) (shift : Nat) :
    word &&& ~~~(BitVec.ofNat 32 (2 ^ shift - 1)) = word >>> shift <<< shift := by
  refine BitVec.eq_of_getLsbD_eq fun index below => ?_
  simp only [BitVec.getLsbD_and, BitVec.getLsbD_not, BitVec.getLsbD_ofNat,
    Nat.testBit_two_pow_sub_one, BitVec.getLsbD_shiftLeft, BitVec.getLsbD_ushiftRight, below,
    decide_true, Bool.true_and]
  by_cases low : index < shift
  · simp [low]
  · have back : shift + (index - shift) = index := by omega
    simp [low, back]

theorem toNat_and_not_low (word : BitVec 32) (shift : Nat) :
    (word &&& ~~~(BitVec.ofNat 32 (2 ^ shift - 1))).toNat =
      word.toNat / 2 ^ shift * 2 ^ shift := by
  rw [and_not_low, BitVec.toNat_shiftLeft, BitVec.toNat_ushiftRight, Nat.shiftRight_eq_div_pow,
    Nat.shiftLeft_eq]
  exact Nat.mod_eq_of_lt (Nat.lt_of_le_of_lt (Nat.div_mul_le_self _ _) word.isLt)

theorem toNat_and_not_three (word : BitVec 32) : (word &&& ~~~3).toNat = word.toNat / 4 * 4 :=
  toNat_and_not_low word 2

theorem toNat_and_not_seven (word : BitVec 32) : (word &&& ~~~7).toNat = word.toNat / 8 * 8 :=
  toNat_and_not_low word 3

end Alignment

section Values

variable {count size index : Nat}

theorem getLsbD_read (inside : index < 8 * count) :
    (read memory address count).getLsbD index =
      (memory (address + index / 8)).getLsbD (index % 8) := by
  induction count with
  | zero => omega
  | succ count ih =>
      rw [read, BitVec.getLsbD_cast, BitVec.getLsbD_append]
      split
      · exact ih (by omega)
      · have last : index / 8 = count := by omega
        have place : index - 8 * count = index % 8 := by omega
        rw [last, place]

theorem read_congr {changed : Bytes}
    (same : ∀ other, address ≤ other → other < address + count → changed other = memory other) :
    read changed address count = read memory address count := by
  refine BitVec.eq_of_getLsbD_eq fun index inside => ?_
  rw [getLsbD_read inside, getLsbD_read inside, same _ (by omega) (by omega)]

theorem read_write_self (value : BitVec (8 * count)) :
    read (write memory address count value) address count = value := by
  refine BitVec.eq_of_getLsbD_eq fun index inside => ?_
  rw [getLsbD_read inside, write, if_pos (by omega), BitVec.getLsbD_extractLsb',
    Nat.add_sub_cancel_left, Nat.div_add_mod]
  simp [Nat.mod_lt]

theorem write_of_apart {value : BitVec (8 * count)}
    (apart : other < address ∨ address + count ≤ other) :
    write memory address count value other = memory other := by
  rw [write, if_neg (by omega)]

theorem read_write_of_apart {value : BitVec (8 * size)}
    (apart : other + count ≤ address ∨ address + size ≤ other) :
    read (write memory address size value) other count = read memory other count :=
  read_congr fun _ above below => write_of_apart (by omega)

theorem write_read_self : write memory address count (read memory address count) = memory := by
  funext other
  rw [write]
  split
  · refine BitVec.eq_of_getLsbD_eq fun index inside => ?_
    rw [BitVec.getLsbD_extractLsb', getLsbD_read (by omega),
      show address + (8 * (other - address) + index) / 8 = other by omega,
      show (8 * (other - address) + index) % 8 = index by omega]
    simp [inside]
  · rfl

end Values

end Memory
