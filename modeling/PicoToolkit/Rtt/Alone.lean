import PicoToolkit.Rtt.Rules

/-!
What the functions of a ring buffer do while nobody else is at it: the three ways to write agree where
there is room, and what the questions about the ring answer.
-/

namespace PicoToolkit.Rtt

open Channel Circular

structure Sized (sizeOfBuffer : Word) (buffer : Buffer Byte) : Prop where
  size : buffer.size = sizeOfBuffer.toNat
  front : buffer.front < sizeOfBuffer.toNat
  back : buffer.back < sizeOfBuffer.toNat

def stored (slot : Nat → Byte) (offset : Nat) (bytes : List Byte) : Nat → Byte := fun position =>
  if offset ≤ position ∧ position < offset + bytes.length then bytes.getD (position - offset) 0
  else slot position

/-- The ring with more bytes behind the back: those up to the end of the buffer and those at its start. -/
def published (buffer : Buffer Byte) (bytes : List Byte) : Buffer Byte :=
  { buffer with
    slot := stored (stored buffer.slot buffer.back (bytes.take (buffer.size - buffer.back))) 0
      (bytes.drop (buffer.size - buffer.back))
    back := place buffer.size buffer.back bytes.length }

theorem stored_nil (slot : Nat → Byte) (offset : Nat) : stored slot offset [] = slot := by
  funext position
  rw [stored, if_neg (by simp only [List.length_nil]; omega)]

theorem stored_cons (slot : Nat → Byte) (offset : Nat) (byte : Byte) (rest : List Byte) :
    stored (Function.update slot offset byte) (offset + 1) rest = stored slot offset (byte :: rest) := by
  funext position
  simp only [stored, List.length_cons]
  by_cases here : position = offset
  · subst here
    rw [if_neg (by omega), if_pos (by omega), Function.update_self, Nat.sub_self, List.getD_cons_zero]
  · rw [Function.update_of_ne here]
    by_cases later : offset + 1 ≤ position ∧ position < offset + 1 + rest.length
    · rw [if_pos later, if_pos (by omega)]
      obtain ⟨before, rfl⟩ := Nat.exists_eq_add_of_le later.1
      have shift : offset + 1 + before - offset = before + 1 := by omega
      rw [shift, List.getD_cons_succ, Nat.add_sub_cancel_left]
    · rw [if_neg later, if_neg (by omega)]

section Exec

variable {sizeOfBuffer : Word} {buffer : Buffer Byte} {data : List Byte} {numBytes : Word}

@[simp]
theorem exec_rdOff : rdOff.exec buffer = some (BitVec.ofNat 32 buffer.front, buffer) :=
  rfl

@[simp]
theorem exec_wrOff : wrOff.exec buffer = some (BitVec.ofNat 32 buffer.back, buffer) :=
  rfl

@[simp]
theorem exec_setRdOff {offset : Word} :
    (setRdOff offset).exec buffer = some ((), { buffer with front := offset.toNat }) :=
  rfl

@[simp]
theorem exec_setWrOff {offset : Word} :
    (setWrOff offset).exec buffer = some ((), { buffer with back := offset.toNat }) :=
  rfl

theorem exec_storeBytes {bytes : List Byte} {offset : Word}
    (ends : offset.toNat + bytes.length ≤ 2 ^ 32) :
    (storeBytes offset bytes).exec buffer =
      some ((), { buffer with slot := stored buffer.slot offset.toNat bytes }) := by
  induction bytes generalizing buffer offset with
  | nil =>
      rw [stored_nil]
      rfl
  | cons byte rest ih =>
      change (storeBytes (offset + 1) rest).exec { buffer with
        slot := Function.update buffer.slot offset.toNat byte } = _
      rw [List.length_cons] at ends
      by_cases last : rest = []
      · subst last
        rw [← stored_cons, stored_nil]
        rfl
      · have some_ := List.length_pos_iff.mpr last
        have next : (offset + 1).toNat = offset.toNat + 1 := by bv_omega
        rw [ih (by omega), next, stored_cons]

theorem exec_memcpyTo {offset : Word} (inData : numBytes.toNat ≤ data.length)
    (ends : offset.toNat + numBytes.toNat ≤ 2 ^ 32) :
    (memcpyTo offset data numBytes).exec buffer = some ((), { buffer with
      slot := stored buffer.slot offset.toNat (data.take numBytes.toNat) }) := by
  refine exec_storeBytes ?_
  rw [List.length_take_of_le inData]
  exact ends

theorem toNat_ofNat_front (sized : Sized sizeOfBuffer buffer) :
    (BitVec.ofNat 32 buffer.front).toNat = buffer.front := by
  have below := sized.front
  rw [BitVec.toNat_ofNat]
  omega

theorem toNat_ofNat_back (sized : Sized sizeOfBuffer buffer) :
    (BitVec.ofNat 32 buffer.back).toNat = buffer.back := by
  have below := sized.back
  rw [BitVec.toNat_ofNat]
  omega

theorem published_of_lt {bytes : List Byte} (below : buffer.back + bytes.length < buffer.size) :
    published buffer bytes = { buffer with
      slot := stored buffer.slot buffer.back bytes
      back := buffer.back + bytes.length } := by
  rw [published, List.take_of_length_le (by omega), List.drop_eq_nil_of_le (by omega), stored_nil,
    place, if_pos below]

theorem exec_writeNoCheck (sized : Sized sizeOfBuffer buffer)
    (whole : numBytes.toNat = data.length) :
    (writeNoCheck sizeOfBuffer data numBytes).exec buffer = some ((), published buffer data) := by
  have atBack := toNat_ofNat_back sized
  have size_eq := sized.size
  have belowBack := sized.back
  have belowOffset : (BitVec.ofNat 32 buffer.back).toNat < sizeOfBuffer.toNat := by omega
  simp only [writeNoCheck, Code.exec_bind, exec_wrOff, Option.bind_some]
  by_cases before : sizeOfBuffer - BitVec.ofNat 32 buffer.back > numBytes
  · have ends := (untilEnd_gt belowOffset).mp before
    have small := sizeOfBuffer.isLt
    have next : (BitVec.ofNat 32 buffer.back + numBytes).toNat = buffer.back + data.length := by
      rw [toNat_sum (by omega), atBack, whole]
    rw [if_pos before, Code.exec_bind, exec_memcpyTo (by omega) (by omega), Option.bind_some,
      exec_setWrOff, published_of_lt (by omega), next, atBack, whole, List.take_length]
  · have remaining : (sizeOfBuffer - BitVec.ofNat 32 buffer.back).toNat =
        buffer.size - buffer.back := by
      rw [toNat_untilEnd belowOffset, size_eq, atBack]
    have around := mt (untilEnd_gt belowOffset).mpr before
    have wraps : buffer.size ≤ buffer.back + data.length := by omega
    have rest : (numBytes - (sizeOfBuffer - BitVec.ofNat 32 buffer.back)).toNat =
        data.length - (buffer.size - buffer.back) := by
      rw [toNat_rest (by omega), remaining, whole]
    have long : (data.drop (buffer.size - buffer.back)).length =
        data.length - (buffer.size - buffer.back) := List.length_drop
    have allTaken : (data.drop (buffer.size - buffer.back)).take
        (data.length - (buffer.size - buffer.back)) = data.drop (buffer.size - buffer.back) := by
      rw [← long, List.take_length]
    rw [if_neg before, Code.exec_bind, exec_memcpyTo (by omega) (by omega), Option.bind_some,
      Code.exec_bind, exec_memcpyTo, Option.bind_some, exec_setWrOff, atBack, rest, remaining,
      allTaken, published, place, if_neg (by omega), toNat_zero]
    · congr 3
      omega
    · rw [rest, remaining, long]
    · rw [rest, toNat_zero]
      omega

theorem exec_getAvailWriteSpace (sized : Sized sizeOfBuffer buffer) :
    ∃ avail : Word, avail.toNat = free sizeOfBuffer.toNat buffer.front buffer.back ∧
      (getAvailWriteSpace sizeOfBuffer).exec buffer = some (avail, buffer) := by
  have atFront := toNat_ofNat_front sized
  have atBack := toNat_ofNat_back sized
  have below := sized.front
  have belowBack := sized.back
  simp only [getAvailWriteSpace, Code.exec_bind, exec_rdOff, exec_wrOff, Option.bind_some]
  by_cases before : BitVec.ofNat 32 buffer.front ≤ BitVec.ofNat 32 buffer.back
  · rw [if_pos before]
    refine ⟨_, ?_, rfl⟩
    rw [toNat_avail_before before (by omega), atFront, atBack]
  · rw [if_neg before]
    have belowFront : (BitVec.ofNat 32 buffer.front).toNat < sizeOfBuffer.toNat := by omega
    refine ⟨_, ?_, rfl⟩
    rw [toNat_avail_behind before belowFront, atFront, atBack]

theorem exec_oneChunk {Result : Type} (result : Result) (sized : Sized sizeOfBuffer buffer)
    (whole : numBytes.toNat = data.length)
    (ends : buffer.back + numBytes.toNat < sizeOfBuffer.toNat) :
    (do
      memcpyTo (BitVec.ofNat 32 buffer.back) data numBytes
      setWrOff (BitVec.ofNat 32 buffer.back + numBytes)
      return result : Code Byte Result).exec buffer = some (result, published buffer data) := by
  have atBack := toNat_ofNat_back sized
  have size_eq := sized.size
  have next : (BitVec.ofNat 32 buffer.back + numBytes).toNat = buffer.back + data.length := by
    bv_omega
  rw [Code.exec_bind, exec_memcpyTo (by omega) (by omega), Option.bind_some, Code.exec_bind,
    exec_setWrOff, published_of_lt (by omega), next, atBack, whole, List.take_length]
  rfl

theorem exec_writeSkipNoLock (sized : Sized sizeOfBuffer buffer)
    (whole : numBytes.toNat = data.length) :
    (writeSkipNoLock sizeOfBuffer data numBytes).exec buffer =
      if data.length ≤ free sizeOfBuffer.toNat buffer.front buffer.back then
        some (1, published buffer data)
      else some (0, buffer) := by
  have atFront := toNat_ofNat_front sized
  have atBack := toNat_ofNat_back sized
  have size_eq := sized.size
  have below := sized.front
  have belowBack := sized.back
  have oneChunk := exec_oneChunk (1 : Word) sized whole
  simp only [writeSkipNoLock, Code.exec_bind, exec_rdOff, exec_wrOff, Option.bind_some]
  generalize BitVec.ofNat 32 buffer.front = readOffset at *
  generalize BitVec.ofNat 32 buffer.back = offset at *
  have belowOffset : offset.toNat < sizeOfBuffer.toNat := by omega
  by_cases before : readOffset ≤ offset
  · have isFree : free sizeOfBuffer.toNat readOffset.toNat offset.toNat = _ := free_of_le before
    have order : readOffset.toNat ≤ offset.toNat := before
    rw [if_pos before]
    by_cases first : sizeOfBuffer - offset - 1 ≥ numBytes
    · have ends := (fits_before_end belowOffset).mp first
      rw [atFront, atBack] at isFree
      rw [if_pos first, if_pos (by omega)]
      exact oneChunk (by omega)
    have around := mt (fits_before_end belowOffset).mpr first
    rw [if_neg first]
    by_cases second : sizeOfBuffer - offset - 1 + readOffset ≥ numBytes
    · have room := (fits_around_end before belowOffset).mp second
      rw [atFront, atBack, whole] at room
      have remaining : (sizeOfBuffer - offset).toNat = buffer.size - buffer.back := by
        rw [toNat_untilEnd belowOffset, size_eq, atBack]
      have wraps : buffer.size ≤ buffer.back + data.length := by omega
      have rest : (numBytes - (sizeOfBuffer - offset)).toNat =
          data.length - (buffer.size - buffer.back) := by
        rw [toNat_rest (by omega), remaining, whole]
      have roomy : free sizeOfBuffer.toNat buffer.front buffer.back < sizeOfBuffer.toNat := by
        unfold free
        omega
      have long : (data.drop (buffer.size - buffer.back)).length =
          data.length - (buffer.size - buffer.back) := List.length_drop
      have allTaken : (data.drop (buffer.size - buffer.back)).take
          (data.length - (buffer.size - buffer.back)) = data.drop (buffer.size - buffer.back) := by
        rw [← long, List.take_length]
      have isPlace : data.length - (buffer.size - buffer.back) =
          place buffer.size buffer.back data.length := by
        rw [place, if_neg (by omega)]
        omega
      rw [if_pos second, if_pos room, Code.exec_bind, exec_memcpyTo (by omega) (by omega),
        Option.bind_some]
      by_cases more : numBytes - (sizeOfBuffer - offset) ≠ 0
      · rw [if_pos more, Code.exec_bind, exec_memcpyTo (by rw [rest, remaining, long])
          (by rw [rest, toNat_zero]; omega), Option.bind_some, Code.exec_bind, exec_setWrOff, rest,
          remaining, allTaken, atBack, toNat_zero, published, ← isPlace]
        rfl
      · have none_ : data.drop (buffer.size - buffer.back) = [] := by
          have same := rest_eq_zero.mp (not_not.mp more)
          rw [← same] at remaining
          exact List.drop_eq_nil_of_le (by omega)
        rw [if_neg more, Code.exec_bind, exec_setWrOff, rest, remaining, atBack, published, none_,
          stored_nil, ← isPlace]
        rfl
    · have full := mt (fits_around_end before belowOffset).mpr second
      rw [atFront, atBack, whole] at full
      rw [if_neg second, if_neg full]
      rfl
  · have isFree : free sizeOfBuffer.toNat readOffset.toNat offset.toNat = _ := free_of_not_le before
    have asked := @fits_up_to_front sizeOfBuffer numBytes readOffset offset before (by omega)
    rw [atFront, atBack] at isFree
    rw [atFront, atBack, whole] at asked
    rw [if_neg before]
    by_cases fits : readOffset - offset - 1 ≥ numBytes
    · have room := asked.mp fits
      rw [if_pos fits, if_pos room]
      exact oneChunk (by omega)
    · rw [if_neg fits, if_neg (mt asked.mpr fits)]
      rfl

theorem exec_writeNoLock_skip {rounds : Nat} (sized : Sized sizeOfBuffer buffer)
    (whole : numBytes.toNat = data.length) :
    (writeNoLock sizeOfBuffer rttModeNoBlockSkip rounds data numBytes).exec buffer =
      if data.length ≤ free sizeOfBuffer.toNat buffer.front buffer.back then
        some (numBytes, published buffer data)
      else some (0, buffer) := by
  obtain ⟨avail, isFree, asked⟩ := exec_getAvailWriteSpace sized
  have below := sized.front
  have fewer : free sizeOfBuffer.toNat buffer.front buffer.back < sizeOfBuffer.toNat := by
    unfold free
    omega
  rw [writeNoLock, if_pos rfl, Code.exec_bind, asked, Option.bind_some]
  by_cases full : avail < numBytes
  · rw [if_pos full, if_neg (by bv_omega)]
    rfl
  · rw [if_neg full, if_pos (by bv_omega), Code.exec_bind, exec_writeNoCheck sized whole]
    rfl

theorem exec_writeChunk (data : List Byte) (numBytes : Word) {offset : Word}
    (size_eq : buffer.size = sizeOfBuffer.toNat)
    (atBack : offset.toNat = buffer.back) (belowBack : buffer.back < sizeOfBuffer.toNat)
    (inData : numBytes.toNat ≤ data.length)
    (ends : buffer.back + numBytes.toNat ≤ sizeOfBuffer.toNat) :
    ∃ next : Word, next.toNat = place buffer.size buffer.back numBytes.toNat ∧
      (writeChunk sizeOfBuffer offset data numBytes).exec buffer = some (next, { buffer with
        slot := stored buffer.slot buffer.back (data.take numBytes.toNat)
        back := place buffer.size buffer.back numBytes.toNat }) := by
  have isPlace : (if offset + numBytes = sizeOfBuffer then 0 else offset + numBytes).toNat =
      place buffer.size buffer.back numBytes.toNat := by
    rw [size_eq, ← atBack]
    exact toNat_next_chunk (by omega) (by omega)
  refine ⟨_, isPlace, ?_⟩
  rw [writeChunk, Code.exec_bind, exec_memcpyTo inData (by omega), Option.bind_some, Code.exec_bind,
    exec_setWrOff, atBack, isPlace]
  rfl

theorem exec_lastRound {rounds : Nat} {numBytesWritten offset : Word}
    (sized : Sized sizeOfBuffer buffer) (atBack : offset.toNat = buffer.back)
    (whole : numBytes.toNat = data.length)
    (fits : data.length ≤ free sizeOfBuffer.toNat buffer.front buffer.back)
    (ends : data.length ≤ sizeOfBuffer.toNat - buffer.back) :
    (writeBlockingLoop sizeOfBuffer (rounds + 1) numBytesWritten offset data numBytes).exec buffer =
      some (numBytesWritten + numBytes, { buffer with
        slot := stored buffer.slot buffer.back data
        back := place buffer.size buffer.back data.length }) := by
  have atFront := toNat_ofNat_front sized
  have size_eq := sized.size
  have below := sized.front
  have belowBack := sized.back
  rw [writeBlockingLoop, Code.exec_bind, exec_rdOff, Option.bind_some]
  simp only
  generalize BitVec.ofNat 32 buffer.front = readOffset at *
  have all : numBytesToWrite sizeOfBuffer readOffset offset numBytes = numBytes := by
    have size_chunk : (numBytesToWrite sizeOfBuffer readOffset offset numBytes).toNat = _ :=
      toNat_numBytesToWrite numBytes (by omega) (by omega)
    rw [atFront, atBack] at size_chunk
    exact BitVec.eq_of_toNat_eq (by omega)
  obtain ⟨next, _, wrote⟩ := exec_writeChunk data numBytes size_eq atBack
    belowBack (by omega) (by omega)
  have zero : numBytes - numBytes = 0 := rest_eq_zero.mpr rfl
  rw [all, Code.exec_bind, wrote, Option.bind_some, if_pos zero, whole, List.take_length]
  rfl

theorem exec_writeBlocking {rounds : Nat} (sized : Sized sizeOfBuffer buffer)
    (whole : numBytes.toNat = data.length)
    (fits : data.length ≤ free sizeOfBuffer.toNat buffer.front buffer.back) (enough : 2 ≤ rounds) :
    (writeBlocking sizeOfBuffer rounds data numBytes).exec buffer =
      some (numBytes, published buffer data) := by
  obtain ⟨more, rfl⟩ := Nat.exists_eq_add_of_le' enough
  have atFront := toNat_ofNat_front sized
  have atBack := toNat_ofNat_back sized
  have size_eq := sized.size
  have below := sized.front
  have belowBack := sized.back
  have bound := count_lt below belowBack
  have sum : 0 + numBytes = numBytes := BitVec.zero_add numBytes
  rw [writeBlocking, Code.exec_bind, exec_wrOff, Option.bind_some]
  simp only
  by_cases first : data.length ≤ sizeOfBuffer.toNat - buffer.back
  · have none_ : data.drop (buffer.size - buffer.back) = [] := List.drop_eq_nil_of_le (by omega)
    have every : data.take (buffer.size - buffer.back) = data := List.take_of_length_le (by omega)
    rw [exec_lastRound sized atBack whole fits first, sum, published, none_, stored_nil, every]
  -- the first round ends at the end of the buffer
  rw [writeBlockingLoop, Code.exec_bind, exec_rdOff, Option.bind_some]
  simp only
  generalize BitVec.ofNat 32 buffer.front = readOffset at *
  generalize BitVec.ofNat 32 buffer.back = offset at *
  have size_chunk : (numBytesToWrite sizeOfBuffer readOffset offset numBytes).toNat =
      buffer.size - buffer.back := by
    rw [toNat_numBytesToWrite numBytes (by omega) (by omega), atFront, atBack]
    omega
  generalize numBytesToWrite sizeOfBuffer readOffset offset numBytes = chunk at *
  obtain ⟨next, isNext, wrote⟩ := exec_writeChunk data chunk size_eq atBack
    belowBack (by omega) (by omega)
  have start : place buffer.size buffer.back chunk.toNat = 0 := by
    rw [place, if_neg (by omega)]
    omega
  rw [start] at isNext wrote
  have dropped : (data.drop chunk.toNat).length = data.length - chunk.toNat := List.length_drop
  have rest : (numBytes - chunk).toNat = (data.drop chunk.toNat).length := by
    rw [toNat_rest (by omega), dropped, whole]
  have some_ : ¬ numBytes - chunk = 0 := by
    intro none_
    have same := congrArg BitVec.toNat (rest_eq_zero.mp none_)
    omega
  have counted : count sizeOfBuffer.toNat buffer.front 0 =
      count sizeOfBuffer.toNat buffer.front buffer.back + chunk.toNat := by
    rw [← start, size_eq]
    apply count_place_back _ below belowBack
    unfold free at fits
    omega
  have left_ : (data.drop chunk.toNat).length ≤ free sizeOfBuffer.toNat buffer.front 0 := by
    unfold free at fits ⊢
    omega
  have fewer : data.length < sizeOfBuffer.toNat := by
    unfold free at fits
    omega
  have short : (data.drop chunk.toNat).length ≤ sizeOfBuffer.toNat - 0 := by omega
  have summed : 0 + chunk + (numBytes - chunk) = numBytes := by
    rw [BitVec.add_assoc, add_rest]
    exact sum
  have again : (writeBlockingLoop sizeOfBuffer (more + 1) (0 + chunk) next (data.drop chunk.toNat)
      (numBytes - chunk)).exec { buffer with
        slot := stored buffer.slot buffer.back (data.take chunk.toNat)
        back := 0 } = _ :=
    exec_lastRound ⟨size_eq, below, Nat.zero_lt_of_lt below⟩ isNext rest left_ short
  have isPlace : place buffer.size (place buffer.size buffer.back chunk.toNat)
      (data.drop chunk.toNat).length =
        place buffer.size buffer.back (chunk.toNat + (data.drop chunk.toNat).length) :=
    place_place (by omega) (by omega)
  have all : chunk.toNat + (data.drop chunk.toNat).length = data.length := by omega
  rw [start, all] at isPlace
  rw [Code.exec_bind, wrote, Option.bind_some, if_neg some_, again, summed]
  simp only [isPlace, published, ← size_chunk]

theorem stored_inside {slot : Nat → Byte} {offset index : Nat} {bytes : List Byte}
    (inside : index < bytes.length) : stored slot offset bytes (offset + index) = bytes[index] := by
  rw [stored, if_pos (by omega), Nat.add_sub_cancel_left, List.getD_eq_getElem?_getD,
    List.getElem?_eq_getElem inside, Option.getD_some]

theorem stored_outside {slot : Nat → Byte} {offset position : Nat} {bytes : List Byte}
    (outside : position < offset ∨ offset + bytes.length ≤ position) :
    stored slot offset bytes position = slot position := by
  rw [stored, if_neg (by omega)]

theorem published_place {index : Nat} (belowBack : buffer.back < buffer.size)
    (last : data.length ≤ index + buffer.size) (inside : index < data.length) :
    (published buffer data).slot (place buffer.size buffer.back index) = data[index] := by
  have taken : (data.take (buffer.size - buffer.back)).length =
      min (buffer.size - buffer.back) data.length := List.length_take
  have dropped : (data.drop (buffer.size - buffer.back)).length =
      data.length - (buffer.size - buffer.back) := List.length_drop
  simp only [published]
  by_cases first : buffer.back + index < buffer.size
  · rw [place, if_pos first, stored_outside (by omega), stored_inside (by omega), List.getElem_take]
  · have shift : buffer.back + index - buffer.size = 0 + (index - (buffer.size - buffer.back)) := by
      omega
    rw [place, if_neg first, shift, stored_inside (by omega), List.getElem_drop]
    congr 1
    omega

theorem published_other {position : Nat} (belowBack : buffer.back < buffer.size)
    (other : ∀ index < data.length, position ≠ place buffer.size buffer.back index)
    (below : position < buffer.size) :
    (published buffer data).slot position = buffer.slot position := by
  have taken : (data.take (buffer.size - buffer.back)).length =
      min (buffer.size - buffer.back) data.length := List.length_take
  have dropped : (data.drop (buffer.size - buffer.back)).length =
      data.length - (buffer.size - buffer.back) := List.length_drop
  have outsideFirst : position < buffer.back ∨ buffer.back + data.length ≤ position := by
    by_contra inside
    have found := other (position - buffer.back) (by omega)
    rw [place, if_pos (by omega)] at found
    omega
  have outsideSecond : data.length - (buffer.size - buffer.back) ≤ position := by
    by_contra inside
    have found := other (position + (buffer.size - buffer.back)) (by omega)
    rw [place, if_neg (by omega)] at found
    omega
  simp only [published]
  rw [stored_outside (by omega), stored_outside (by omega)]

theorem contents_published (sized : Sized sizeOfBuffer buffer)
    (fits : data.length ≤ free sizeOfBuffer.toNat buffer.front buffer.back) :
    (published buffer data).contents = buffer.contents ++ data := by
  have size_eq := sized.size
  have below := sized.front
  have belowBack := sized.back
  rw [← size_eq] at below belowBack fits
  have bound := count_lt below belowBack
  unfold free at fits
  have more := contents_place_back (published buffer data).slot data.length below belowBack (by omega)
  have kept : contents (published buffer data).slot buffer.size buffer.front buffer.back =
      buffer.contents := by
    refine contents_congr fun index inside => ?_
    refine published_other belowBack ?_ (place_lt below (by omega))
    intro later inData
    exact place_front_ne_back below belowBack inside (by omega)
  have new : span (published buffer data).slot buffer.size buffer.back data.length = data := by
    refine List.ext_getElem length_span fun index inSpan inData => ?_
    rw [getElem_span, published_place belowBack (by omega) inData]
  rw [kept, new] at more
  exact more

/-- Where the bytes fit, the three modes agree; where they do not, nothing happens in skip mode.  The
function for skip mode only does what the general one does, and tells 1 in place of the number of
bytes. -/
theorem writers_agree {rounds : Nat} (sized : Sized sizeOfBuffer buffer)
    (whole : numBytes.toNat = data.length) (enough : 2 ≤ rounds) :
    (data ≠ [] → (writeSkipNoLock sizeOfBuffer data numBytes).exec buffer =
        ((writeNoLock sizeOfBuffer rttModeNoBlockSkip rounds data numBytes).exec buffer).map
          (fun found => (if found.1 = 0 then 0 else 1, found.2))) ∧
      (data.length ≤ free sizeOfBuffer.toNat buffer.front buffer.back →
        ∀ flags : Word, flags.toNat ≤ 2 →
          (writeNoLock sizeOfBuffer flags rounds data numBytes).exec buffer =
              some (numBytes, published buffer data) ∧
            (published buffer data).contents = buffer.contents ++ data) ∧
      (free sizeOfBuffer.toNat buffer.front buffer.back < data.length →
        (writeNoLock sizeOfBuffer rttModeNoBlockSkip rounds data numBytes).exec buffer =
          some (0, buffer)) := by
  refine ⟨?_, ?_, ?_⟩
  · intro nonempty
    have long := List.length_pos_iff.mpr nonempty
    rw [exec_writeSkipNoLock sized whole, exec_writeNoLock_skip sized whole]
    split
    · have more : numBytes ≠ 0 := by bv_omega
      simp only [Option.map_some, more, if_false]
    · rfl
  · intro fits flags known
    refine ⟨?_, contents_published sized fits⟩
    by_cases skips : flags = rttModeNoBlockSkip
    · rw [skips, exec_writeNoLock_skip sized whole, if_pos fits]
    by_cases trims : flags = rttModeNoBlockTrim
    · obtain ⟨avail, isFree, asked⟩ := exec_getAvailWriteSpace sized
      have below := sized.front
      have fewer : free sizeOfBuffer.toNat buffer.front buffer.back < sizeOfBuffer.toNat := by
        unfold free
        omega
      have all : (if avail < numBytes then avail else numBytes) = numBytes := by
        rw [if_neg (by bv_omega)]
      rw [writeNoLock, if_neg skips, if_pos trims, Code.exec_bind, asked, Option.bind_some]
      simp only [all]
      rw [Code.exec_bind, exec_writeNoCheck sized whole]
      rfl
    · have blocks : flags = rttModeBlockIfFifoFull := by
        unfold rttModeNoBlockSkip at skips
        unfold rttModeNoBlockTrim at trims
        unfold rttModeBlockIfFifoFull
        bv_omega
      rw [writeNoLock, if_neg skips, if_neg trims, if_pos blocks,
        exec_writeBlocking sized whole fits enough]
  · intro full
    rw [exec_writeNoLock_skip sized whole, if_neg (by omega)]

theorem writers_agree_three :
    (writeSkipNoLock 8 [1, 2, 3] 3).exec ⟨fun _ => 0, 8, 6, 6⟩ =
      ((writeNoLock 8 rttModeNoBlockSkip 2 [1, 2, 3] 3).exec ⟨fun _ => 0, 8, 6, 6⟩).map
        fun found => (if found.1 = 0 then 0 else 1, found.2) :=
  (writers_agree ⟨rfl, by decide, by decide⟩ rfl (Nat.le_refl 2)).1 (by decide)

/-- What the questions about a ring answer.  The number of bytes in it is right only if they do not wrap
around, and more than the size of the ring otherwise. -/
theorem ring_answers (sized : Sized sizeOfBuffer buffer) (small : sizeOfBuffer.toNat ≤ 2 ^ 31) :
    (∃ avail : Word, (getAvailWriteSpace sizeOfBuffer).exec buffer = some (avail, buffer) ∧
      avail.toNat + buffer.contents.length + 1 = sizeOfBuffer.toNat) ∧
    (∃ answer : Word, hasData.exec buffer = some (answer, buffer) ∧
      (answer = 0 ↔ buffer.contents = [])) ∧
    (∃ answer : Word, hasDataUp.exec buffer = some (answer, buffer) ∧
      (answer = 0 ↔ buffer.contents = [])) ∧
    (∃ answer : Int, hasKey.exec buffer = some (answer, buffer) ∧
      (answer = 0 ↔ buffer.contents = [])) ∧
    ∃ bytes : Word, (getBytesInBuffer sizeOfBuffer).exec buffer = some (bytes, buffer) ∧
      (buffer.front ≤ buffer.back → bytes.toNat = buffer.contents.length) ∧
      (buffer.back < buffer.front → sizeOfBuffer.toNat < bytes.toNat) := by
  have atFront := toNat_ofNat_front sized
  have atBack := toNat_ofNat_back sized
  have below := sized.front
  have belowBack := sized.back
  have bound := count_lt below belowBack
  have length : buffer.contents.length = count sizeOfBuffer.toNat buffer.front buffer.back := by
    rw [Buffer.contents, length_contents, sized.size]
  have isEmpty : buffer.contents = [] ↔ buffer.front = buffer.back := by
    rw [← count_eq_zero below, ← length, List.length_eq_zero_iff]
  have same : BitVec.ofNat 32 buffer.front = BitVec.ofNat 32 buffer.back ↔
      buffer.front = buffer.back := by
    constructor
    · intro equal
      rw [← atFront, ← atBack, equal]
    · intro equal
      rw [equal]
  refine ⟨?_, ?_, ?_, ?_, ?_⟩
  · obtain ⟨avail, isFree, asked⟩ := exec_getAvailWriteSpace sized
    refine ⟨avail, asked, ?_⟩
    rw [isFree, length, free]
    omega
  · refine ⟨BitVec.ofNat 32 buffer.back - BitVec.ofNat 32 buffer.front, rfl, ?_⟩
    rw [isEmpty, ← same]
    bv_omega
  · refine ⟨BitVec.ofNat 32 buffer.back - BitVec.ofNat 32 buffer.front, rfl, ?_⟩
    rw [isEmpty, ← same]
    bv_omega
  · rw [hasKey, Code.exec_bind, exec_rdOff, Option.bind_some, Code.exec_bind, exec_wrOff,
      Option.bind_some, isEmpty, ← same]
    by_cases equal : BitVec.ofNat 32 buffer.front = BitVec.ofNat 32 buffer.back
    · refine ⟨0, ?_, ?_⟩
      · simp only [equal, ne_eq, not_true_eq_false, if_false]
        rfl
      · simp [equal]
    · refine ⟨1, ?_, ?_⟩
      · simp only [equal, ne_eq, not_false_eq_true, if_true]
        rfl
      · simp [equal]
  · rw [getBytesInBuffer, Code.exec_bind, exec_rdOff, Option.bind_some, Code.exec_bind, exec_wrOff,
      Option.bind_some]
    by_cases before : BitVec.ofNat 32 buffer.front ≤ BitVec.ofNat 32 buffer.back
    · rw [if_pos before]
      refine ⟨_, rfl, ?_, ?_⟩
      · intro order
        rw [length, count, if_pos order]
        bv_omega
      · intro order
        bv_omega
    · rw [if_neg before]
      refine ⟨_, rfl, ?_, ?_⟩
      · intro order
        bv_omega
      · intro order
        bv_omega

theorem ring_answers_wrapped : ∃ bytes : Word,
    (getBytesInBuffer 8).exec ⟨fun _ => 0, 8, 6, 2⟩ = some (bytes, ⟨fun _ => 0, 8, 6, 2⟩) ∧
      (6 ≤ 2 → bytes.toNat = (Buffer.contents ⟨fun _ => (0 : Byte), 8, 6, 2⟩).length) ∧
      (2 < 6 → (8 : Word).toNat < bytes.toNat) :=
  (ring_answers ⟨rfl, by decide, by decide⟩ (by decide)).2.2.2.2

end Exec

end PicoToolkit.Rtt
