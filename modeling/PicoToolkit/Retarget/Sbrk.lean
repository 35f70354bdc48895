import PicoToolkit.Library.Memory
import PicoToolkit.Scheduler.State

/-!
The heap of the C library: `sbrk`, whose calls the lock of the library puts one after the other.
Increments and addresses are words, and sums of them wrap.
-/

namespace PicoToolkit.Retarget

open Memory

/-- The addresses of `end` and `__StackLimit`; the linker asserts their order. -/
structure Region where
  end_ : Word
  stackLimit : Word
  ordered : end_ ≤ stackLimit

structure Heap where
  currentBrk : Word
  errno : Word

def enomem : Word := 12

/-- `(incr + 7) & ~7` -/
def rounded (incr : Word) : Word := (incr + 7) &&& ~~~7

def sbrk (region : Region) (incr : Word) (heap : Heap) : Word × Heap :=
  let newBrk := heap.currentBrk + rounded incr
  if region.end_ ≤ newBrk ∨ newBrk ≤ region.stackLimit then
    (heap.currentBrk, { heap with currentBrk := newBrk })
  else (0xffffffff, { heap with errno := enomem })

def sbrks (region : Region) (heap : Heap) (incrs : List Word) : Heap :=
  incrs.foldl (fun heap incr => (sbrk region incr heap).2) heap

def Region.start (region : Region) (errno : Word) : Heap :=
  { currentBrk := region.end_, errno := errno }

def roundUp (incr : Int) : Int := 8 * ((incr + 7) / 8)

namespace Region

variable (region : Region)

def Contains (address : Word) : Prop := region.end_ ≤ address ∧ address ≤ region.stackLimit

def Holds (heap : Heap) : Prop :=
  region.Contains heap.currentBrk ∧ heap.currentBrk.toNat % 8 = region.end_.toNat % 8

def Answers (heap : Heap) (incr : Word) : Prop :=
  let newBrk := heap.currentBrk + BitVec.ofInt 32 (roundUp incr.toInt)
  let (block, after) := sbrk region incr heap
  (block = heap.currentBrk ↔ region.Contains newBrk) ∧
    (region.Contains newBrk → after.currentBrk = newBrk) ∧
    (¬region.Contains newBrk → block.toInt = -1 ∧ after.currentBrk = heap.currentBrk)

def Keeps (heap : Heap) (incrs : List Word) : Prop :=
  (∀ asked, asked <+: incrs → region.Holds (sbrks region heap asked)) ∧
    ∀ asked incr, asked ++ [incr] <+: incrs → region.Answers (sbrks region heap asked) incr

def reached (incrs : List Word) : Word :=
  region.end_ + BitVec.ofInt 32 ((incrs.map fun incr => roundUp incr.toInt).sum)

end Region

section Rounding

theorem rounded_eq (incr : Word) : rounded incr = BitVec.ofInt 32 (roundUp incr.toInt) := by
  have small := incr.isLt
  have sum : (incr + 7).toNat = (incr.toNat + 7) % 2 ^ 32 := by
    rw [BitVec.toNat_add]
    rfl
  refine BitVec.eq_of_toNat_eq ?_
  rw [rounded, toNat_and_not_seven, sum, BitVec.toNat_ofInt, roundUp, BitVec.toInt_eq_toNat_cond]
  split <;> omega

theorem toNat_add_multiple (address : Word) (steps : Int) :
    (address + BitVec.ofInt 32 (8 * steps)).toNat % 8 = address.toNat % 8 := by
  have small := address.isLt
  rw [BitVec.toNat_add, BitVec.toNat_ofInt]
  omega

theorem sum_roundUp (incrs : List Word) :
    ∃ steps, (incrs.map fun incr => roundUp incr.toInt).sum = 8 * steps := by
  induction incrs with
  | nil => exact ⟨0, rfl⟩
  | cons incr incrs ih =>
      obtain ⟨steps, later⟩ := ih
      refine ⟨(incr.toInt + 7) / 8 + steps, ?_⟩
      rw [List.map_cons, List.sum_cons, later, roundUp]
      omega

end Rounding

section Runs

variable {region : Region}

/-- Each address is above the start of the region or below its limit, so that no call is refused. -/
theorem sbrk_eq (heap : Heap) (incr : Word) :
    sbrk region incr heap =
      (heap.currentBrk, { heap with currentBrk := heap.currentBrk + rounded incr }) := by
  have ordered := region.ordered
  have either : region.end_ ≤ heap.currentBrk + rounded incr ∨
      heap.currentBrk + rounded incr ≤ region.stackLimit := by
    rw [BitVec.le_def] at ordered ⊢
    rw [BitVec.le_def]
    omega
  simp only [sbrk, if_pos either]

theorem sbrks_concat (heap : Heap) (incrs : List Word) (incr : Word) :
    sbrks region heap (incrs ++ [incr]) = (sbrk region incr (sbrks region heap incrs)).2 := by
  simp [sbrks]

theorem reached_concat (incrs : List Word) (incr : Word) :
    region.reached (incrs ++ [incr]) =
      region.reached incrs + BitVec.ofInt 32 (roundUp incr.toInt) := by
  simp only [Region.reached, List.map_append, List.map_singleton, List.sum_append, List.sum_singleton,
    BitVec.ofInt_add, BitVec.add_assoc]

theorem sbrks_currentBrk (errno : Word) (incrs : List Word) :
    (sbrks region (region.start errno) incrs).currentBrk = region.reached incrs := by
  induction incrs using List.reverseRecOn with
  | nil => simp [sbrks, Region.start, Region.reached]
  | append_singleton incrs incr ih =>
      rw [sbrks_concat, sbrk_eq, reached_concat, ← ih, rounded_eq]

theorem reached_mod_eight (incrs : List Word) :
    (region.reached incrs).toNat % 8 = region.end_.toNat % 8 := by
  obtain ⟨steps, sum⟩ := sum_roundUp incrs
  rw [Region.reached, sum]
  exact toNat_add_multiple region.end_ steps

/-- The heap stays in its region exactly if no increment leads out of it: both bounds would have to
hold of a new break, and the code accepts it with either. -/
theorem keeps_iff (region : Region) (errno : Word) (incrs : List Word) :
    region.Keeps (region.start errno) incrs ↔
      ∀ asked, asked <+: incrs → region.Contains (region.reached asked) := by
  constructor
  · intro keeps asked earlier
    have holds := (keeps.1 asked earlier).1
    rwa [sbrks_currentBrk] at holds
  · intro contained
    refine ⟨fun asked earlier => ⟨?_, ?_⟩, fun asked incr earlier => ?_⟩
    · rw [sbrks_currentBrk]
      exact contained asked earlier
    · rw [sbrks_currentBrk]
      exact reached_mod_eight asked
    · have next := contained _ earlier
      rw [reached_concat] at next
      rw [Region.Answers, sbrk_eq, sbrks_currentBrk, rounded_eq]
      exact ⟨⟨fun _ => next, fun _ => rfl⟩, fun _ => rfl, fun outside => absurd next outside⟩

theorem heap_over_stack :
    let region : Region := { end_ := 0x20001000, stackLimit := 0x20040000, ordered := by decide }
    (sbrk region 0x40000 (region.start 0)).1 = 0x20001000 ∧
      (sbrk region 0x40000 (region.start 0)).2.currentBrk = 0x20041000 ∧
      ¬region.Keeps (region.start 0) [0x40000] := by
  refine ⟨by decide, by decide, fun keeps => ?_⟩
  have inside := (keeps.1 [0x40000] (List.prefix_refl _)).1.2
  exact absurd inside (by decide)

end Runs

end PicoToolkit.Retarget
