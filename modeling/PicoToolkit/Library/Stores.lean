import Mathlib.Data.List.Basic
import PicoToolkit.Library.Memory

/-!
Stores made to a memory one after the other, and the regions they lie in.
-/

namespace Memory

structure Region where
  start : Nat
  size : Nat

namespace Region

def Contains (region : Region) (address : Nat) : Prop :=
  region.start ≤ address ∧ address < region.start + region.size

def Inside (inner outer : Region) : Prop := ∀ address, inner.Contains address → outer.Contains address

def Disjoint (left right : Region) : Prop :=
  ∀ address, left.Contains address → ¬right.Contains address

theorem Disjoint.symm {left right : Region} (apart : left.Disjoint right) : right.Disjoint left :=
  fun address first second => apart address second first

theorem inside_iff {inner outer : Region} (nonempty : 0 < inner.size) :
    inner.Inside outer ↔
      outer.start ≤ inner.start ∧ inner.start + inner.size ≤ outer.start + outer.size := by
  constructor
  · intro inside
    have first := inside inner.start ⟨Nat.le_refl _, by omega⟩
    have last := inside (inner.start + inner.size - 1) ⟨by omega, by omega⟩
    have lower := first.1
    have upper := last.2
    omega
  · rintro ⟨lower, upper⟩ address ⟨after, before⟩
    exact ⟨by omega, by omega⟩

theorem disjoint_of_le {left right : Region} (before : left.start + left.size ≤ right.start) :
    left.Disjoint right := by
  rintro address ⟨_, first⟩ ⟨second, _⟩
  omega

theorem disjoint_iff {left right : Region} (first : 0 < left.size) (second : 0 < right.size) :
    left.Disjoint right ↔
      left.start + left.size ≤ right.start ∨ right.start + right.size ≤ left.start := by
  constructor
  · intro apart
    by_contra overlap
    by_cases ahead : left.start ≤ right.start
    · exact apart right.start ⟨ahead, by omega⟩ ⟨Nat.le_refl _, by omega⟩
    · exact apart left.start ⟨Nat.le_refl _, by omega⟩ ⟨by omega, by omega⟩
  · rintro (before | after)
    · exact disjoint_of_le before
    · exact (disjoint_of_le after).symm

theorem Disjoint.of_inside {inner outer other : Region} (apart : outer.Disjoint other)
    (inside : inner.Inside outer) : inner.Disjoint other :=
  fun address first second => apart address (inside address first) second

end Region

structure Store where
  address : Nat
  bytes : List (BitVec 8)

def Store.region (store : Store) : Region := ⟨store.address, store.bytes.length⟩

def littleEndian (value : BitVec 32) : List (BitVec 8) :=
  [value.extractLsb' 0 8, value.extractLsb' 8 8, value.extractLsb' 16 8, value.extractLsb' 24 8]

def Store.word (address : Nat) (value : BitVec 32) : Store := ⟨address, littleEndian value⟩

@[simp]
theorem Store.word_region (address : Nat) (value : BitVec 32) :
    (Store.word address value).region = ⟨address, 4⟩ := rfl

namespace Bytes

def after (memory : Bytes) (store : Store) : Bytes := fun address =>
  if store.address ≤ address then
    (store.bytes[address - store.address]?).getD (memory address)
  else memory address

def run (memory : Bytes) (stores : List Store) : Bytes := stores.foldl after memory

variable {memory : Bytes}

theorem after_of_not_contains {store : Store} {address : Nat}
    (outside : ¬store.region.Contains address) : memory.after store address = memory address := by
  rw [after]
  split
  next lower =>
    have beyond : store.bytes.length ≤ address - store.address := by
      by_contra within
      exact outside ⟨lower, by simp only [Store.region]; omega⟩
    rw [List.getElem?_eq_none beyond, Option.getD_none]
  next => rfl

@[simp]
theorem run_nil : memory.run [] = memory := rfl

@[simp]
theorem run_cons (store : Store) (stores : List Store) :
    memory.run (store :: stores) = (memory.after store).run stores := rfl

theorem run_append (first second : List Store) :
    memory.run (first ++ second) = (memory.run first).run second :=
  List.foldl_append

theorem run_eq_of_covered {other : Bytes} {stores : List Store} {address : Nat}
    (same : memory address = other address ∨ ∃ store ∈ stores, store.region.Contains address) :
    memory.run stores address = other.run stores address := by
  induction stores generalizing memory other with
  | nil =>
      rcases same with same | ⟨store, member, -⟩
      · exact same
      · cases member
  | cons first rest ih =>
      rw [run_cons, run_cons]
      apply ih
      by_cases inside : first.region.Contains address
      · left
        have lower : first.address ≤ address := inside.1
        have upper : address - first.address < first.bytes.length := by
          have bound := inside.2
          simp only [Store.region] at bound
          omega
        rw [after, after, if_pos lower, if_pos lower, List.getElem?_eq_getElem upper]
        rfl
      · rcases same with same | ⟨store, member, contains⟩
        · left
          rw [after_of_not_contains inside, after_of_not_contains inside, same]
        · rcases List.mem_cons.mp member with rfl | later
          · exact absurd contains inside
          · exact .inr ⟨store, later, contains⟩

theorem load_after_of_disjoint {store : Store} {address : Nat}
    (apart : store.region.Disjoint ⟨address, 4⟩) :
    load (memory.after store) address = load memory address :=
  load_congr fun byte lower upper =>
    after_of_not_contains fun inside => apart byte inside ⟨lower, upper⟩

theorem load_run_of_disjoint {stores : List Store} {address : Nat}
    (apart : ∀ store ∈ stores, store.region.Disjoint ⟨address, 4⟩) :
    load (memory.run stores) address = load memory address := by
  induction stores generalizing memory with
  | nil => rfl
  | cons store stores ih =>
      rw [run_cons, ih fun later member => apart later (List.mem_cons_of_mem _ member),
        load_after_of_disjoint (apart store List.mem_cons_self)]

theorem after_word (address : Nat) (value : BitVec 32) :
    memory.after (Store.word address value) = store memory address value := by
  funext other
  rw [after, store]
  by_cases inside : address ≤ other ∧ other < address + 4
  · rw [if_pos inside, if_pos (show (Store.word address value).address ≤ other from inside.1)]
    obtain ⟨index, rfl⟩ := Nat.exists_eq_add_of_le inside.1
    have cases : index = 0 ∨ index = 1 ∨ index = 2 ∨ index = 3 := by omega
    rcases cases with rfl | rfl | rfl | rfl <;> simp [Store.word, littleEndian]
  · rw [if_neg inside]
    exact @after_of_not_contains memory (Store.word address value) other inside

theorem load_after_word (address : Nat) (value : BitVec 32) :
    load (memory.after (Store.word address value)) address = value := by
  rw [after_word, load_store_self]

end Bytes

end Memory
