import PicoToolkit.Rtt.Alone

/-!
Writing over the oldest bytes.  The function keeps the newest bytes if the data goes less than once around
behind the end of the buffer; there it takes the buffer to be one byte shorter than it is, so that from
then on the offsets do not fit each other.
-/

namespace PicoToolkit.Rtt

open Channel Circular

variable {sizeOfBuffer : Word} {buffer : Buffer Byte} {data : List Byte} {numBytes : Word}
  {rounds : Nat}

theorem toNat_pred (some_ : 0 < sizeOfBuffer.toNat) :
    (sizeOfBuffer - 1).toNat = sizeOfBuffer.toNat - 1 := by
  bv_omega

theorem toNat_overwriteAvail {offset readOffset : Word}
    (below : readOffset.toNat < sizeOfBuffer.toNat) (belowBack : offset.toNat < sizeOfBuffer.toNat) :
    (overwriteAvail sizeOfBuffer offset readOffset).toNat =
      free sizeOfBuffer.toNat readOffset.toNat offset.toNat := by
  unfold overwriteAvail free count
  by_cases empty : offset = readOffset
  · rw [if_pos empty, if_pos (by bv_omega)]
    bv_omega
  rw [if_neg empty]
  by_cases behind : offset < readOffset
  · rw [if_pos behind, if_neg (by bv_omega)]
    bv_omega
  · rw [if_neg behind, if_pos (by bv_omega)]
    bv_omega

theorem exec_overwriteLoop_last {avail : Word} (size_eq : buffer.size = sizeOfBuffer.toNat)
    (belowBack : buffer.back < sizeOfBuffer.toNat) (whole : numBytes.toNat = data.length)
    (fits : data.length < avail.toNat)
    (ends : buffer.back + data.length < sizeOfBuffer.toNat) :
    (overwriteLoop sizeOfBuffer (rounds + 1) avail data numBytes).exec buffer =
      some ((), { buffer with
        slot := stored buffer.slot buffer.back data
        back := buffer.back + data.length }) := by
  have atBack : (BitVec.ofNat 32 buffer.back).toNat = buffer.back := by
    rw [BitVec.toNat_ofNat]
    omega
  have small := sizeOfBuffer.isLt
  have next : (BitVec.ofNat 32 buffer.back + numBytes).toNat = buffer.back + data.length := by
    rw [toNat_sum (by omega), atBack, whole]
  have less : avail > numBytes := BitVec.lt_def.mpr (by omega)
  rw [overwriteLoop, Code.exec_bind, exec_wrOff, Option.bind_some]
  simp only
  rw [if_pos less, Code.exec_bind, exec_memcpyTo (by omega) (by omega), Option.bind_some,
    exec_setWrOff, next, atBack, whole, List.take_length]

theorem exec_overwriteLoop_wrap {avail : Word} (size_eq : buffer.size = sizeOfBuffer.toNat)
    (belowBack : buffer.back < sizeOfBuffer.toNat) (whole : numBytes.toNat = data.length)
    (wraps : avail.toNat ≤ data.length) (ends : buffer.back + avail.toNat ≤ sizeOfBuffer.toNat) :
    (overwriteLoop sizeOfBuffer (rounds + 1) avail data numBytes).exec buffer =
      (if numBytes - avail = 0 then pure ()
        else overwriteLoop sizeOfBuffer rounds (sizeOfBuffer - 1) (data.drop avail.toNat)
          (numBytes - avail) : Code Byte Unit).exec { buffer with
        slot := stored buffer.slot buffer.back (data.take avail.toNat)
        back := 0 } := by
  have atBack : (BitVec.ofNat 32 buffer.back).toNat = buffer.back := by
    rw [BitVec.toNat_ofNat]
    omega
  rw [overwriteLoop, Code.exec_bind, exec_wrOff, Option.bind_some]
  simp only
  have notLess : ¬ avail > numBytes := fun less => by
    have numbers := BitVec.lt_def.mp less
    omega
  rw [if_neg notLess, Code.exec_bind, exec_memcpyTo wraps (by omega), Option.bind_some,
    Code.exec_bind, exec_setWrOff, atBack, toNat_zero]
  rfl

/-- Data that goes less than once around behind the end of the buffer is stored as it should be. -/
theorem exec_overwriteLoop (size_eq : buffer.size = sizeOfBuffer.toNat)
    (belowBack : buffer.back < sizeOfBuffer.toNat) (whole : numBytes.toNat = data.length)
    (short : data.length < sizeOfBuffer.toNat - buffer.back + (sizeOfBuffer.toNat - 1)) :
    (overwriteLoop sizeOfBuffer (rounds + 2) (sizeOfBuffer - BitVec.ofNat 32 buffer.back) data
      numBytes).exec buffer = some ((), published buffer data) := by
  have avail : (sizeOfBuffer - BitVec.ofNat 32 buffer.back).toNat =
      sizeOfBuffer.toNat - buffer.back := by
    have atBack : (BitVec.ofNat 32 buffer.back).toNat = buffer.back := by
      rw [BitVec.toNat_ofNat]
      omega
    rw [toNat_untilEnd (by omega), atBack]
  generalize sizeOfBuffer - BitVec.ofNat 32 buffer.back = chunk at *
  by_cases first : buffer.back + data.length < sizeOfBuffer.toNat
  · rw [exec_overwriteLoop_last size_eq belowBack whole (by omega) first,
      published_of_lt (by omega)]
  rw [exec_overwriteLoop_wrap size_eq belowBack whole (by omega) (by omega)]
  have dropped : (data.drop chunk.toNat).length = data.length - chunk.toNat := List.length_drop
  have isPlace : place buffer.size buffer.back data.length = (data.drop chunk.toNat).length := by
    rw [place, if_neg (by omega), dropped]
    omega
  have untilEnd : chunk.toNat = buffer.size - buffer.back := by omega
  by_cases ends : numBytes - chunk = 0
  · have all := congrArg BitVec.toNat (rest_eq_zero.mp ends)
    have none_ : data.drop chunk.toNat = [] := List.drop_eq_nil_of_le (by omega)
    rw [if_pos ends, published, isPlace, ← untilEnd, none_, stored_nil]
    rfl
  · have rest : (numBytes - chunk).toNat = (data.drop chunk.toNat).length := by
      rw [toNat_rest (by omega), dropped, whole]
    have pred := toNat_pred (Nat.zero_lt_of_lt belowBack)
    have fits : (data.drop chunk.toNat).length < (sizeOfBuffer - 1).toNat := by omega
    have inFront : 0 + (data.drop chunk.toNat).length < sizeOfBuffer.toNat := by omega
    have last : (overwriteLoop sizeOfBuffer (rounds + 1) (sizeOfBuffer - 1) (data.drop chunk.toNat)
        (numBytes - chunk)).exec { buffer with
          slot := stored buffer.slot buffer.back (data.take chunk.toNat)
          back := 0 } = _ :=
      exec_overwriteLoop_last size_eq (Nat.zero_lt_of_lt belowBack) rest fits inFront
    rw [if_neg ends, last, published, isPlace, ← untilEnd]
    simp only [Nat.zero_add]

theorem exec_wrapRdOff (enough : buffer.front < rounds * sizeOfBuffer.toNat)
    (small : buffer.front < 2 ^ 32) :
    (wrapRdOff sizeOfBuffer rounds).exec buffer =
      some ((), { buffer with front := buffer.front % sizeOfBuffer.toNat }) := by
  induction rounds generalizing buffer with
  | zero => omega
  | succ rounds ih =>
      have atFront : (BitVec.ofNat 32 buffer.front).toNat = buffer.front := by
        rw [BitVec.toNat_ofNat]
        omega
      rw [wrapRdOff, Code.exec_bind, exec_rdOff, Option.bind_some]
      simp only
      by_cases below : buffer.front < sizeOfBuffer.toNat
      · rw [if_neg (by bv_omega), Nat.mod_eq_of_lt below]
        rfl
      · have reduced : (BitVec.ofNat 32 buffer.front - sizeOfBuffer).toNat =
            buffer.front - sizeOfBuffer.toNat := by bv_omega
        have fewer : buffer.front - sizeOfBuffer.toNat < rounds * sizeOfBuffer.toNat := by
          rw [Nat.succ_mul] at enough
          omega
        have rest : (wrapRdOff sizeOfBuffer rounds).exec
            { buffer with front := buffer.front - sizeOfBuffer.toNat } = _ :=
          ih fewer (Nat.lt_of_le_of_lt (Nat.sub_le _ _) small)
        rw [if_pos (by bv_omega), Code.exec_bind, exec_setRdOff, Option.bind_some, reduced, rest,
          Nat.mod_eq_sub_mod (Nat.le_of_not_lt below)]

def overwrittenFront (buffer : Buffer Byte) (numBytes : Nat) : Nat :=
  place buffer.size buffer.front
    (count buffer.size buffer.front buffer.back + numBytes - (buffer.size - 1))

theorem overwritten_none {size front back numBytes : Nat} (below : front < size) (belowBack : back < size)
    (fits : numBytes ≤ free size front back) : count size front back + numBytes - (size - 1) = 0 := by
  have bound := count_lt below belowBack
  unfold free at fits
  omega

theorem exec_overwrite_fits (sized : Sized sizeOfBuffer buffer) (whole : numBytes.toNat = data.length)
    (fits : data.length ≤ free sizeOfBuffer.toNat buffer.front buffer.back) :
    (writeWithOverwriteNoLock sizeOfBuffer rounds data numBytes).exec buffer =
      (overwriteLoop sizeOfBuffer rounds (sizeOfBuffer - BitVec.ofNat 32 buffer.back) data
        numBytes).exec buffer := by
  have atFront := toNat_ofNat_front sized
  have atBack := toNat_ofNat_back sized
  have below := sized.front
  have belowBack := sized.back
  have avail : (overwriteAvail sizeOfBuffer (BitVec.ofNat 32 buffer.back)
      (BitVec.ofNat 32 buffer.front)).toNat = _ := toNat_overwriteAvail (by omega) (by omega)
  rw [atFront, atBack] at avail
  rw [writeWithOverwriteNoLock, Code.exec_bind, exec_wrOff, Option.bind_some, Code.exec_bind,
    exec_rdOff, Option.bind_some]
  simp only
  rw [if_neg (by bv_omega)]

theorem exec_overwrite_exceeds (sized : Sized sizeOfBuffer buffer)
    (whole : numBytes.toNat = data.length)
    (exceeds : free sizeOfBuffer.toNat buffer.front buffer.back < data.length)
    (inRounds : buffer.front + (data.length - free sizeOfBuffer.toNat buffer.front buffer.back) <
      rounds * sizeOfBuffer.toNat)
    (inWord : buffer.front + (data.length - free sizeOfBuffer.toNat buffer.front buffer.back) <
      2 ^ 32) :
    (writeWithOverwriteNoLock sizeOfBuffer rounds data numBytes).exec buffer =
      (overwriteLoop sizeOfBuffer rounds (sizeOfBuffer - BitVec.ofNat 32 buffer.back) data
        numBytes).exec { buffer with
          front := (buffer.front + (data.length - free sizeOfBuffer.toNat buffer.front buffer.back)) %
            sizeOfBuffer.toNat } := by
  have atFront := toNat_ofNat_front sized
  have atBack := toNat_ofNat_back sized
  have below := sized.front
  have belowBack := sized.back
  have avail : (overwriteAvail sizeOfBuffer (BitVec.ofNat 32 buffer.back)
      (BitVec.ofNat 32 buffer.front)).toNat = _ := toNat_overwriteAvail (by omega) (by omega)
  rw [atFront, atBack] at avail
  have moved : (BitVec.ofNat 32 buffer.front + (numBytes - overwriteAvail sizeOfBuffer
      (BitVec.ofNat 32 buffer.back) (BitVec.ofNat 32 buffer.front))).toNat =
        buffer.front + (data.length - free sizeOfBuffer.toNat buffer.front buffer.back) := by
    bv_omega
  have wrapped : (wrapRdOff sizeOfBuffer rounds).exec { buffer with
      front := buffer.front + (data.length - free sizeOfBuffer.toNat buffer.front buffer.back) } = _ :=
    exec_wrapRdOff inRounds inWord
  rw [writeWithOverwriteNoLock, Code.exec_bind, exec_wrOff, Option.bind_some, Code.exec_bind,
    exec_rdOff, Option.bind_some]
  simp only
  rw [if_pos (by bv_omega), Code.exec_bind, exec_setRdOff, Option.bind_some, moved, Code.exec_bind,
    wrapped, Option.bind_some]

theorem exec_overwrite_front (sized : Sized sizeOfBuffer buffer)
    (whole : numBytes.toNat = data.length) (small : sizeOfBuffer.toNat ≤ 2 ^ 31)
    (short : data.length < sizeOfBuffer.toNat - buffer.back + (sizeOfBuffer.toNat - 1)) :
    (writeWithOverwriteNoLock sizeOfBuffer (rounds + 2) data numBytes).exec buffer =
      some ((), { published buffer data with front := overwrittenFront buffer data.length }) := by
  have size_eq := sized.size
  have below := sized.front
  have belowBack := sized.back
  by_cases fits : data.length ≤ free sizeOfBuffer.toNat buffer.front buffer.back
  · have same : overwrittenFront buffer data.length = buffer.front := by
      rw [← size_eq] at fits below belowBack
      rw [overwrittenFront, overwritten_none below belowBack fits, place_zero below]
    rw [exec_overwrite_fits sized whole fits, exec_overwriteLoop size_eq belowBack whole short, same]
    rfl
  have exceeds : free sizeOfBuffer.toNat buffer.front buffer.back < data.length := by omega
  have bound := count_lt below belowBack
  have beyond : buffer.front + (data.length - free sizeOfBuffer.toNat buffer.front buffer.back) <
      sizeOfBuffer.toNat + sizeOfBuffer.toNat := by
    have counted : count sizeOfBuffer.toNat buffer.front buffer.back =
        if buffer.front ≤ buffer.back then buffer.back - buffer.front
        else buffer.back + sizeOfBuffer.toNat - buffer.front := rfl
    unfold free at exceeds ⊢
    split at counted
    · omega
    · omega
  have inRounds : buffer.front + (data.length -
      free sizeOfBuffer.toNat buffer.front buffer.back) < (rounds + 2) * sizeOfBuffer.toNat := by
    rw [Nat.add_mul]
    omega
  have isFront : (buffer.front + (data.length -
      free sizeOfBuffer.toNat buffer.front buffer.back)) % sizeOfBuffer.toNat =
        overwrittenFront buffer data.length := by
    have shift : data.length - free sizeOfBuffer.toNat buffer.front buffer.back =
        count sizeOfBuffer.toNat buffer.front buffer.back + data.length -
          (sizeOfBuffer.toNat - 1) := by
      unfold free at exceeds ⊢
      omega
    rw [overwrittenFront, size_eq, ← shift, place]
    split
    · exact Nat.mod_eq_of_lt ‹_›
    · rw [Nat.mod_eq_sub_mod (by omega), Nat.mod_eq_of_lt (by omega)]
  have loop : (overwriteLoop sizeOfBuffer (rounds + 2) (sizeOfBuffer - BitVec.ofNat 32 buffer.back)
      data numBytes).exec { buffer with front := overwrittenFront buffer data.length } = _ :=
    exec_overwriteLoop size_eq belowBack whole short
  rw [exec_overwrite_exceeds sized whole exceeds inRounds (by omega), isFront]
  exact loop

def newest (room : Nat) (bytes : List Byte) : List Byte := bytes.drop (bytes.length - room)

theorem count_overwritten {size front back numBytes : Nat} (below : front < size)
    (exceeds : size - 1 < count size front back + numBytes) :
    count size (place size front (count size front back + numBytes - (size - 1)))
      (place size back numBytes) = size - 1 := by
  grind [count, place]

/-- Where the elements of such a ring are: the old ones where they were, the others behind the back. -/
theorem place_overwritten {size front back numBytes index : Nat} (below : front < size)
    (belowBack : back < size) (exceeds : size - 1 < count size front back + numBytes)
    (short : numBytes < size - back + (size - 1)) (inside : index < size - 1) :
    place size (place size front (count size front back + numBytes - (size - 1))) index =
      if count size front back + numBytes - (size - 1) + index < count size front back then
        place size front (count size front back + numBytes - (size - 1) + index)
      else place size back
        (count size front back + numBytes - (size - 1) + index - count size front back) := by
  grind [count, place]

theorem place_ne_overwritten {size front back numBytes index later : Nat} (below : front < size)
    (belowBack : back < size) (old : index < count size front back)
    (kept : count size front back + numBytes - (size - 1) ≤ index) (inside : later < numBytes) :
    place size front index ≠ place size back later := by
  grind [count, place]

theorem contents_overwritten (sized : Sized sizeOfBuffer buffer)
    (short : data.length < sizeOfBuffer.toNat - buffer.back + (sizeOfBuffer.toNat - 1)) :
    Buffer.contents { published buffer data with front := overwrittenFront buffer data.length } =
      newest (sizeOfBuffer.toNat - 1) (buffer.contents ++ data) := by
  have size_eq := sized.size
  have below := sized.front
  have belowBack := sized.back
  rw [← size_eq] at below belowBack short ⊢
  have bound := count_lt below belowBack
  have length : buffer.contents.length = count buffer.size buffer.front buffer.back :=
    length_contents
  by_cases fits : data.length ≤ free sizeOfBuffer.toNat buffer.front buffer.back
  · have all := contents_published sized fits
    rw [← size_eq] at fits
    have none_ := overwritten_none below belowBack fits
    rw [newest, List.length_append, length, none_, overwrittenFront, none_, place_zero below,
      List.drop_zero]
    exact all
  rw [← size_eq] at fits
  have exceeds : buffer.size - 1 < count buffer.size buffer.front buffer.back + data.length := by
    unfold free at fits
    omega
  have isFull := count_overwritten below exceeds
  have contents_eq : Buffer.contents
      { published buffer data with front := overwrittenFront buffer data.length } =
        span (published buffer data).slot buffer.size (overwrittenFront buffer data.length)
          (buffer.size - 1) := by
    rw [← isFull]
    rfl
  rw [contents_eq, newest]
  refine List.ext_getElem ?_ fun index inSpan inNewest => ?_
  · rw [length_span, List.length_drop, List.length_append, length]
    omega
  rw [length_span] at inSpan
  rw [getElem_span, List.getElem_drop, overwrittenFront,
    place_overwritten below belowBack exceeds short inSpan]
  have total : (buffer.contents ++ data).length - (buffer.size - 1) =
      count buffer.size buffer.front buffer.back + data.length - (buffer.size - 1) := by
    rw [List.length_append, length]
  by_cases old : count buffer.size buffer.front buffer.back + data.length - (buffer.size - 1) + index <
      count buffer.size buffer.front buffer.back
  · rw [if_pos old, List.getElem_append_left (by omega)]
    have untouched : (published buffer data).slot (place buffer.size buffer.front
        (count buffer.size buffer.front buffer.back + data.length - (buffer.size - 1) + index)) = _ :=
      published_other belowBack (fun later inside =>
        place_ne_overwritten below belowBack old (Nat.le_add_right _ _) inside)
          (place_lt below (by omega))
    rw [untouched, ← total]
    exact (getElem_span _).symm
  · rw [if_neg old, List.getElem_append_right (by omega),
      published_place belowBack (by omega) (by omega)]
    congr 1
    omega

/-- The ring keeps the newest bytes if the data goes less than once around behind the end of the
buffer. -/
theorem overwrite_keeps (sized : Sized sizeOfBuffer buffer) (whole : numBytes.toNat = data.length)
    (small : sizeOfBuffer.toNat ≤ 2 ^ 31) (enough : 2 ≤ rounds)
    (short : data.length < sizeOfBuffer.toNat - buffer.back + (sizeOfBuffer.toNat - 1)) :
    ∃ after, (writeWithOverwriteNoLock sizeOfBuffer rounds data numBytes).exec buffer =
        some ((), after) ∧ Sized sizeOfBuffer after ∧
      after.contents = newest (sizeOfBuffer.toNat - 1) (buffer.contents ++ data) := by
  obtain ⟨more, rfl⟩ := Nat.exists_eq_add_of_le' enough
  have size_eq := sized.size
  have below := sized.front
  have belowBack := sized.back
  have bound := count_lt below belowBack
  refine ⟨_, exec_overwrite_front sized whole small short, ⟨size_eq, ?_, ?_⟩,
    contents_overwritten sized short⟩
  · simp only [overwrittenFront, size_eq]
    apply place_lt_of_once
    have counted : count sizeOfBuffer.toNat buffer.front buffer.back =
        if buffer.front ≤ buffer.back then buffer.back - buffer.front
        else buffer.back + sizeOfBuffer.toNat - buffer.front := rfl
    split at counted
    · omega
    · omega
  · simp only [published, size_eq]
    exact place_lt_of_once (by omega)

theorem overwrite_keeps_three : ∃ after,
    (writeWithOverwriteNoLock 4 2 [7, 8, 9] 3).exec ⟨fun _ => 1, 4, 0, 2⟩ = some ((), after) ∧
      Sized 4 after ∧ after.contents = newest 3 ([1, 1] ++ [7, 8, 9]) :=
  overwrite_keeps ⟨rfl, by decide, by decide⟩ rfl (by decide)
    (by decide) (by decide)

/-- The ring is empty afterwards if the data goes once around behind the end of the buffer: all of it is
lost, and what was there before. -/
theorem overwrite_loses (sized : Sized sizeOfBuffer buffer) (whole : numBytes.toNat = data.length)
    (small : sizeOfBuffer.toNat < 2 ^ 31) (two : 1 < sizeOfBuffer.toNat) (enough : 3 ≤ rounds)
    (once : data.length = sizeOfBuffer.toNat - buffer.back + (sizeOfBuffer.toNat - 1)) :
    ∃ after, (writeWithOverwriteNoLock sizeOfBuffer rounds data numBytes).exec buffer =
        some ((), after) ∧ after.contents = [] := by
  obtain ⟨more, rfl⟩ := Nat.exists_eq_add_of_le' enough
  have atBack := toNat_ofNat_back sized
  have size_eq := sized.size
  have below := sized.front
  have belowBack := sized.back
  have bound := count_lt below belowBack
  have exceeds : free sizeOfBuffer.toNat buffer.front buffer.back < data.length := by
    unfold free
    omega
  have multiple : buffer.front + (data.length - free sizeOfBuffer.toNat buffer.front buffer.back) =
      (if buffer.front ≤ buffer.back then 1 else 2) * sizeOfBuffer.toNat := by
    have counted : count sizeOfBuffer.toNat buffer.front buffer.back =
        if buffer.front ≤ buffer.back then buffer.back - buffer.front
        else buffer.back + sizeOfBuffer.toNat - buffer.front := rfl
    unfold free
    split at counted
    · rw [if_pos ‹_›]
      omega
    · rw [if_neg ‹_›]
      omega
  have atMost : buffer.front + (data.length - free sizeOfBuffer.toNat buffer.front buffer.back) ≤
      2 * sizeOfBuffer.toNat := by
    rw [multiple]
    split
    · omega
    · omega
  have inRounds : buffer.front + (data.length -
      free sizeOfBuffer.toNat buffer.front buffer.back) < (more + 3) * sizeOfBuffer.toNat := by
    rw [Nat.add_mul]
    omega
  have untilEnd : (sizeOfBuffer - BitVec.ofNat 32 buffer.back).toNat =
      sizeOfBuffer.toNat - buffer.back := by
    rw [toNat_untilEnd (by omega), atBack]
  rw [exec_overwrite_exceeds sized whole exceeds inRounds (by omega)]
  -- The offset to read from wraps around to the start, where the loop goes on twice.
  simp only [multiple, Nat.mul_mod_left]
  generalize sizeOfBuffer - BitVec.ofNat 32 buffer.back = chunk at *
  have first : (overwriteLoop sizeOfBuffer (more + 2 + 1) chunk data numBytes).exec
      { buffer with front := 0 } = _ :=
    exec_overwriteLoop_wrap size_eq belowBack whole (by omega) (by simp only; omega)
  have dropped : (data.drop chunk.toNat).length = data.length - chunk.toNat := List.length_drop
  have rest : (numBytes - chunk).toNat = (data.drop chunk.toNat).length := by
    rw [toNat_rest (by omega), dropped, whole]
  have pred := toNat_pred (Nat.zero_lt_of_lt belowBack)
  have second : (overwriteLoop sizeOfBuffer (more + 1 + 1) (sizeOfBuffer - 1) (data.drop chunk.toNat)
      (numBytes - chunk)).exec { buffer with
        slot := stored buffer.slot buffer.back (data.take chunk.toNat)
        front := 0
        back := 0 } = _ :=
    exec_overwriteLoop_wrap size_eq (Nat.zero_lt_of_lt two) rest (by omega) (by simp only; omega)
  have some_ : ¬ numBytes - chunk = 0 := by
    intro none_
    have all := congrArg BitVec.toNat (rest_eq_zero.mp none_)
    omega
  have none_ : numBytes - chunk - (sizeOfBuffer - 1) = 0 :=
    rest_eq_zero.mpr (BitVec.eq_of_toNat_eq (by omega))
  rw [if_neg some_] at first
  rw [if_pos none_] at second
  rw [first, second]
  exact ⟨_, rfl, contents_self⟩

theorem overwrite_loses_five : ∃ after,
    (writeWithOverwriteNoLock 4 3 [7, 8, 9, 10, 11] 5).exec ⟨fun _ => 1, 4, 0, 2⟩ =
      some ((), after) ∧ after.contents = [] :=
  overwrite_loses ⟨rfl, by decide, by decide⟩ rfl (by decide)
    (by decide) (by decide) rfl

end PicoToolkit.Rtt
