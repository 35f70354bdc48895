import Mathlib.Data.List.Basic

/-!
Circular buffers: a sequence in the slots from a front position up to a back position, which wrap around
at the end of the buffer.  One slot always stays free, so that equal positions mean an empty sequence.
-/

namespace Circular

variable {Element : Type} {slot changed : Nat → Element} {size front back start index other : Nat}

def inc (size position : Nat) : Nat := if position + 1 = size then 0 else position + 1

def dec (size position : Nat) : Nat := if position = 0 then size - 1 else position - 1

def count (size front back : Nat) : Nat :=
  if front ≤ back then back - front else back + size - front

def place (size front index : Nat) : Nat :=
  if front + index < size then front + index else front + index - size

def contents (slot : Nat → Element) (size front back : Nat) : List Element :=
  (List.range (count size front back)).map fun index => slot (place size front index)

def span (slot : Nat → Element) (size start count : Nat) : List Element :=
  (List.range count).map fun index => slot (place size start index)

def free (size front back : Nat) : Nat := size - 1 - count size front back

@[simp]
theorem length_contents : (contents slot size front back).length = count size front back := by
  simp [contents]

theorem inc_lt (below : front < size) : inc size front < size := by
  unfold inc
  split
  · omega
  · omega

theorem dec_lt (below : front < size) : dec size front < size := by
  unfold dec
  split
  · omega
  · omega

theorem inc_dec (below : front < size) : inc size (dec size front) = front := by
  grind [inc, dec]

theorem count_eq_zero (below : front < size) :
    count size front back = 0 ↔ front = back := by
  grind [count]

theorem count_lt (below : front < size) (belowBack : back < size) :
    count size front back < size := by
  grind [count]

theorem count_eq_pred (below : front < size) (belowBack : back < size) :
    count size front back + 1 = size ↔ inc size back = front := by
  grind [count, inc]

theorem count_inc_back (below : front < size)
    (room : inc size back ≠ front) :
    count size front (inc size back) = count size front back + 1 := by
  grind [count, inc]

theorem count_inc_front (below : front < size) (belowBack : back < size) (some_ : front ≠ back) :
    count size (inc size front) back + 1 = count size front back := by
  grind [count, inc]

theorem place_count (below : front < size) (belowBack : back < size) :
    place size front (count size front back) = back := by
  grind [count, place]

theorem place_inc_front (inside : index < size) :
    place size (inc size front) index = place size front (index + 1) := by
  grind [place, inc]

theorem contents_congr (same : ∀ index < count size front back,
    changed (place size front index) = slot (place size front index)) :
    contents changed size front back = contents slot size front back := by
  apply List.map_congr_left
  intro index member
  exact same index (List.mem_range.mp member)

theorem contents_self : contents slot size front front = [] := by
  simp [contents, count]

theorem contents_inc_back (below : front < size) (belowBack : back < size)
    (room : inc size back ≠ front) :
    contents slot size front (inc size back) = contents slot size front back ++ [slot back] := by
  rw [contents, count_inc_back below room, List.range_succ, List.map_append, List.map_cons,
    List.map_nil, place_count below belowBack]
  rfl

theorem contents_front (below : front < size) (belowBack : back < size) (some_ : front ≠ back) :
    contents slot size front back = slot front :: contents slot size (inc size front) back := by
  have more := count_inc_front below belowBack some_
  have bound := count_lt below belowBack
  rw [contents, ← more, List.range_succ_eq_map, List.map_cons, List.map_map]
  congr 1
  · rw [place, if_pos (by omega)]
    rfl
  · apply List.map_congr_left
    intro index member
    have inside := List.mem_range.mp member
    simp only [Function.comp_apply]
    rw [place_inc_front (by omega)]

theorem contents_back (below : front < size) (belowBack : back < size) (some_ : front ≠ back) :
    contents slot size front back =
      contents slot size front (dec size back) ++ [slot (dec size back)] := by
  have wraps := inc_dec belowBack
  have room : inc size (dec size back) ≠ front := by
    rw [wraps]
    exact Ne.symm some_
  have grown := @contents_inc_back _ slot _ _ _ below (dec_lt belowBack) room
  rwa [wraps] at grown

theorem place_ne_back (below : front < size) (belowBack : back < size)
    (inside : index < count size front back) : place size front index ≠ back := by
  grind [place, count]

theorem contents_eq_span : contents slot size front back = span slot size front (count size front back) :=
  rfl

@[simp]
theorem length_span {length : Nat} : (span slot size start length).length = length := by
  simp [span]

theorem place_zero (below : start < size) : place size start 0 = start := by
  rw [place, if_pos (by omega), Nat.add_zero]

theorem place_lt_of_once (once : start + index < size + size) : place size start index < size := by
  unfold place
  split <;> omega

theorem place_lt (below : start < size) (inside : index < size) : place size start index < size :=
  place_lt_of_once (by omega)

theorem place_place (below : start < size) (inside : index + other ≤ size) :
    place size (place size start index) other = place size start (index + other) := by
  by_cases first : start + index < size
  · rw [place, place, if_pos first, place]
    split <;> split <;> omega
  · rw [place, place, if_neg first, place]
    split <;> split <;> omega

theorem place_inj (inside : index < size) (insideOther : other < size)
    (same : place size start index = place size start other) : index = other := by
  simp only [place] at same
  split at same <;> split at same <;> omega

theorem place_back (below : front < size) (belowBack : back < size)
    (inside : count size front back + index < size) :
    place size back index = place size front (count size front back + index) := by
  rw [← place_place below (by omega), place_count below belowBack]

theorem span_add (below : start < size) {first second : Nat} (inside : first + second ≤ size) :
    span slot size start (first + second) =
      span slot size start first ++ span slot size (place size start first) second := by
  rw [span, List.range_add, List.map_append, List.map_map]
  congr 1
  apply List.map_congr_left
  intro index member
  have bound := List.mem_range.mp member
  rw [Function.comp_apply, place_place below (by omega)]

theorem span_congr (slot : Nat → Element) {length : Nat}
    (same : ∀ index < length, changed (place size start index) = slot (place size start index)) :
    span changed size start length = span slot size start length :=
  List.map_congr_left fun index member => same index (List.mem_range.mp member)

theorem getElem_span {length : Nat} (inside : index < (span slot size start length).length) :
    (span slot size start length)[index] = slot (place size start index) := by
  simp [span]

theorem take_span {length first : Nat} (inside : first ≤ length) :
    (span slot size start length).take first = span slot size start first := by
  rw [span, ← List.map_take, List.take_range, Nat.min_eq_left inside, span]

theorem count_place_back (index : Nat) (below : front < size) (belowBack : back < size)
    (inside : count size front back + index < size) :
    count size front (place size back index) = count size front back + index := by
  simp only [count, place] at inside ⊢
  split at inside <;> split <;> split <;> omega

theorem count_place_front (index : Nat) (below : front < size) (belowBack : back < size)
    (inside : index ≤ count size front back) :
    count size (place size front index) back = count size front back - index := by
  simp only [count, place] at inside ⊢
  split at inside <;> split <;> split <;> omega

theorem contents_place_back (slot : Nat → Element) (index : Nat) (below : front < size)
    (belowBack : back < size)
    (inside : count size front back + index < size) :
    contents slot size front (place size back index) =
      contents slot size front back ++ span slot size back index := by
  rw [contents_eq_span, count_place_back index below belowBack inside, span_add below (by omega),
    place_count below belowBack, contents_eq_span]

theorem contents_place_front (slot : Nat → Element) (index : Nat) (below : front < size)
    (belowBack : back < size)
    (inside : index ≤ count size front back) :
    contents slot size front back =
      span slot size front index ++ contents slot size (place size front index) back := by
  have bound := count_lt below belowBack
  rw [contents_eq_span, contents_eq_span, count_place_front index below belowBack inside,
    ← span_add below (by omega), Nat.add_sub_cancel' inside]

theorem place_front_ne_back (below : front < size) (belowBack : back < size)
    (inside : index < count size front back) (beyond : count size front back + other < size) :
    place size front index ≠ place size back other := by
  intro same
  rw [place_back below belowBack beyond] at same
  have equal := place_inj (by omega) beyond same
  omega

end Circular
