import Mathlib.Order.Lattice

/-!
Bisection in a strictly increasing sequence of keys: the interval that still holds the answer is narrowed
from either side until one position is left.
-/

namespace Bisection

variable {Key : Type} [LinearOrder Key] {keys : Nat → Key} {count start middle finish : Nat} {key : Key}

def Increasing (keys : Nat → Key) (count : Nat) : Prop :=
  ∀ first second, first < second → second < count → keys first < keys second

/-- The last position whose key is not above one, or the first position if they are all above. -/
structure IsFloor (keys : Nat → Key) (count : Nat) (key : Key) (position : Nat) : Prop where
  inside : position < count
  notAbove : (∃ other, other < count ∧ keys other ≤ key) → keys position ≤ key
  last : ∀ other, position < other → other < count → key < keys other
  first : (∀ other, other < count → key < keys other) → position = 0

/-- The answer is in the interval from `start` up to `finish`: the key of `start` is not above, unless it
is the first position, and the one of `finish` is above, unless it is behind the last position. -/
structure Brackets (keys : Nat → Key) (count : Nat) (key : Key) (start finish : Nat) : Prop where
  nonempty : start < finish
  inside : finish ≤ count
  lower : 0 < start → keys start ≤ key
  upper : finish < count → key < keys finish

theorem midpoint_inside (wide : start + 1 < finish) :
    start < start + ((finish - start + 1) >>> 1) ∧ start + ((finish - start + 1) >>> 1) < finish := by
  rw [Nat.shiftRight_eq_div_pow]
  constructor
  · omega
  · omega

theorem Brackets.initial (some : 0 < count) : Brackets keys count key 0 count where
  nonempty := some
  inside := Nat.le_refl count
  lower := fun below => absurd below (Nat.lt_irrefl 0)
  upper := fun below => absurd below (Nat.lt_irrefl count)

theorem Brackets.narrowUpper (brackets : Brackets keys count key start finish)
    (above : start < middle) (below : middle < finish) (greater : key < keys middle) :
    Brackets keys count key start middle where
  nonempty := above
  inside := Nat.le_trans (Nat.le_of_lt below) brackets.inside
  lower := brackets.lower
  upper := fun _ => greater

theorem Brackets.narrowLower (brackets : Brackets keys count key start finish)
    (below : middle < finish) (notGreater : ¬key < keys middle) :
    Brackets keys count key middle finish where
  nonempty := below
  inside := brackets.inside
  lower := fun _ => not_lt.mp notGreater
  upper := brackets.upper

theorem Brackets.isFloor (increasing : Increasing keys count)
    (brackets : Brackets keys count key start finish) (narrow : ¬start + 1 < finish) :
    IsFloor keys count key start := by
  have next : finish = start + 1 := by
    have nonempty := brackets.nonempty
    omega
  have last : ∀ other, start < other → other < count → key < keys other := by
    intro other above below
    have greater : key < keys finish := brackets.upper (by omega)
    rcases Nat.lt_or_eq_of_le (show finish ≤ other by omega) with beyond | same
    · exact lt_trans greater (increasing finish other beyond below)
    · rwa [← same]
  refine ⟨?_, ?_, last, ?_⟩
  · have inside := brackets.inside
    omega
  · rintro ⟨other, below, smaller⟩
    rcases Nat.lt_trichotomy other start with before | same | after
    · exact brackets.lower (by omega)
    · rwa [← same]
    · exact absurd (last other after below) (not_lt.mpr smaller)
  · intro all
    refine Nat.eq_zero_of_not_pos fun positive => ?_
    have inside := brackets.inside
    exact absurd (all start (by omega)) (not_lt.mpr (brackets.lower positive))

end Bisection
