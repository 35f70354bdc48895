import Mathlib.Data.BitVec

/-!
Machine words that carry a tag in bit 0, as an aligned address may.
-/

namespace Tag

variable {width : Nat}

def untag (word : BitVec width) : BitVec width := word &&& ~~~BitVec.ofNat width 1

def tag (word : BitVec width) : BitVec width := word ||| BitVec.ofNat width 1

def Untagged (word : BitVec width) : Prop := untag word = word

instance (word : BitVec width) : Decidable (Untagged word) :=
  inferInstanceAs (Decidable (untag word = word))

theorem untag_getElem (word : BitVec width) (index : Nat) (bound : index < width) :
    (untag word)[index] = (word[index] && decide (index ≠ 0)) := by
  simp only [untag, BitVec.getElem_and, BitVec.getElem_not, BitVec.getElem_one, decide_not]

theorem tag_getElem (word : BitVec width) (index : Nat) (bound : index < width) :
    (tag word)[index] = (word[index] || decide (index = 0)) := by
  simp only [tag, BitVec.getElem_or, BitVec.getElem_one]

@[simp] theorem untag_untag (word : BitVec width) : untag (untag word) = untag word := by
  ext index bound
  simp only [untag_getElem]
  grind

@[simp] theorem untag_tag (word : BitVec width) : untag (tag word) = untag word := by
  ext index bound
  simp only [untag_getElem, tag_getElem]
  grind

@[simp] theorem tag_tag (word : BitVec width) : tag (tag word) = tag word := by
  ext index bound
  simp only [tag_getElem]
  grind

@[simp] theorem tag_untag (word : BitVec width) : tag (untag word) = tag word := by
  ext index bound
  simp only [untag_getElem, tag_getElem]
  grind

@[simp] theorem untagged_untag (word : BitVec width) : Untagged (untag word) :=
  untag_untag word

theorem untagged_zero : Untagged (0 : BitVec width) := by
  ext index bound
  simp [untag_getElem]

theorem untag_or_tag (word : BitVec width) : word = untag word ∨ word = tag word := by
  by_cases zero : ∃ bound : 0 < width, word[0] = true
  · obtain ⟨bound, set⟩ := zero
    refine Or.inr ?_
    ext index below
    rw [tag_getElem]
    grind
  · refine Or.inl ?_
    ext index below
    rw [untag_getElem]
    grind

theorem tag_ne_untag (positive : 0 < width) (left right : BitVec width) :
    tag left ≠ untag right := by
  intro same
  have bit := congrArg (fun word : BitVec width => word[0]) same
  simp [tag_getElem, untag_getElem] at bit

theorem tag_ne_of_untagged (positive : 0 < width) {left right : BitVec width}
    (untagged : Untagged right) : tag left ≠ right := by
  rw [← untagged]
  exact tag_ne_untag positive left right

theorem tag_ne_zero (positive : 0 < width) (word : BitVec width) : tag word ≠ 0 :=
  tag_ne_of_untagged positive untagged_zero

end Tag
