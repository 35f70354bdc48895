import PicoToolkit.Rtt.Ring

/-!
What each function of a ring buffer does for its end, whatever the other end does meanwhile: where it
stores, what it sends, what it knows of the room afterwards, and that it waits only where it may.
-/

namespace PicoToolkit.Rtt

open Channel Circular

@[simp]
theorem toNat_minWord (first second : Word) :
    (minWord first second).toNat = min first.toNat second.toNat := by
  unfold minWord
  split
  · bv_omega
  · bv_omega

theorem toNat_zero : (0 : Word).toNat = 0 :=
  rfl

section Words

variable {sizeOfBuffer numBytes chunk readOffset offset : Word}

theorem toNat_untilEnd (belowBack : offset.toNat < sizeOfBuffer.toNat) :
    (sizeOfBuffer - offset).toNat = sizeOfBuffer.toNat - offset.toNat := by
  bv_omega

theorem untilEnd_gt (belowBack : offset.toNat < sizeOfBuffer.toNat) :
    sizeOfBuffer - offset > numBytes ↔ offset.toNat + numBytes.toNat < sizeOfBuffer.toNat := by
  bv_omega

theorem toNat_rest (fewer : chunk.toNat ≤ numBytes.toNat) :
    (numBytes - chunk).toNat = numBytes.toNat - chunk.toNat := by
  bv_omega

theorem toNat_sum (small : offset.toNat + numBytes.toNat < 2 ^ 32) :
    (offset + numBytes).toNat = offset.toNat + numBytes.toNat := by
  bv_omega

theorem rest_eq_zero : numBytes - chunk = 0 ↔ numBytes = chunk := by
  bv_omega

/-- The tests in `SEGGER_RTT_WriteSkipNoLock`: whether the bytes fit before the end of the buffer, around
it, and up to the front. -/
theorem fits_before_end (belowBack : offset.toNat < sizeOfBuffer.toNat) :
    sizeOfBuffer - offset - 1 ≥ numBytes ↔
      offset.toNat + numBytes.toNat < sizeOfBuffer.toNat := by
  bv_omega

theorem fits_around_end (before : readOffset ≤ offset)
    (belowBack : offset.toNat < sizeOfBuffer.toNat) :
    sizeOfBuffer - offset - 1 + readOffset ≥ numBytes ↔
      numBytes.toNat ≤ free sizeOfBuffer.toNat readOffset.toNat offset.toNat := by
  rw [free, count, if_pos (BitVec.le_def.mp before)]
  bv_omega

theorem fits_up_to_front (behind : ¬ readOffset ≤ offset)
    (below : readOffset.toNat < sizeOfBuffer.toNat) :
    readOffset - offset - 1 ≥ numBytes ↔
      numBytes.toNat ≤ free sizeOfBuffer.toNat readOffset.toNat offset.toNat := by
  rw [free, count, if_neg (mt BitVec.le_def.mpr behind)]
  bv_omega

theorem toNat_avail_before (before : readOffset ≤ offset)
    (belowBack : offset.toNat < sizeOfBuffer.toNat) :
    (sizeOfBuffer - 1 - offset + readOffset).toNat =
      free sizeOfBuffer.toNat readOffset.toNat offset.toNat := by
  rw [free, count, if_pos (BitVec.le_def.mp before)]
  bv_omega

theorem toNat_avail_behind (behind : ¬ readOffset ≤ offset)
    (below : readOffset.toNat < sizeOfBuffer.toNat) :
    (readOffset - offset - 1).toNat = free sizeOfBuffer.toNat readOffset.toNat offset.toNat := by
  rw [free, count, if_neg (mt BitVec.le_def.mpr behind)]
  bv_omega

theorem toNat_next_chunk (belowBack : offset.toNat < sizeOfBuffer.toNat)
    (ends : offset.toNat + numBytes.toNat ≤ sizeOfBuffer.toNat) :
    (if offset + numBytes = sizeOfBuffer then 0 else offset + numBytes).toNat =
      place sizeOfBuffer.toNat offset.toNat numBytes.toNat := by
  rw [place]
  by_cases wraps : offset + numBytes = sizeOfBuffer
  · rw [if_pos wraps, if_neg (by bv_omega), toNat_zero]
    bv_omega
  · rw [if_neg wraps, if_pos (by bv_omega)]
    bv_omega

theorem add_rest : chunk + (numBytes - chunk) = numBytes := by
  bv_omega

theorem free_of_le (before : readOffset ≤ offset) :
    free sizeOfBuffer.toNat readOffset.toNat offset.toNat =
      sizeOfBuffer.toNat - 1 - (offset.toNat - readOffset.toNat) := by
  rw [free, count, if_pos (BitVec.le_def.mp before)]

theorem free_of_not_le (behind : ¬ readOffset ≤ offset) :
    free sizeOfBuffer.toNat readOffset.toNat offset.toNat =
      sizeOfBuffer.toNat - 1 - (offset.toNat + sizeOfBuffer.toNat - readOffset.toNat) := by
  rw [free, count, if_neg (mt BitVec.le_def.mpr behind)]

end Words

section Writer

variable {sizeOfBuffer : Word} {waits : Prop} {sender : Sender Byte} {data : List Byte}
  {numBytes : Word}

theorem writes_rdOff {post : Word → Sender Byte → Prop}
    (later : ∀ offset : Word, offset.toNat < sizeOfBuffer.toNat →
      sender.room ≤ free sizeOfBuffer.toNat offset.toNat sender.back →
        post offset { sender with room := free sizeOfBuffer.toNat offset.toNat sender.back }) :
    Writes sizeOfBuffer.toNat waits post rdOff sender := by
  intro front below known
  have same : (BitVec.ofNat 32 front).toNat = front := by
    rw [BitVec.toNat_ofNat]
    omega
  have found := later (BitVec.ofNat 32 front)
  rw [same] at found
  exact found below known

theorem writes_wrOff {post : Word → Sender Byte → Prop}
    (belowBack : sender.back < sizeOfBuffer.toNat)
    (later : ∀ offset : Word, offset.toNat = sender.back → post offset sender) :
    Writes sizeOfBuffer.toNat waits post wrOff sender := by
  apply later
  rw [BitVec.toNat_ofNat]
  omega

theorem writes_setWrOff {post : Unit → Sender Byte → Prop} {offset : Word} {length : Nat}
    (inside : length ≤ sender.room)
    (isPlace : offset.toNat = place sizeOfBuffer.toNat sender.back length)
    (later : post () { sender with
      back := offset.toNat
      room := sender.room - length
      sent := sender.sent ++ span sender.slot sizeOfBuffer.toNat sender.back length }) :
    Writes sizeOfBuffer.toNat waits post (setWrOff offset) sender :=
  ⟨length, inside, isPlace, later⟩

theorem writes_storeBytes {post : Unit → Sender Byte → Prop} {prepared bytes : List Byte}
    {offset : Word} (belowBack : sender.back < sizeOfBuffer.toNat)
    (isPrepared : span sender.slot sizeOfBuffer.toNat sender.back prepared.length = prepared)
    (starts : bytes ≠ [] → offset.toNat = place sizeOfBuffer.toNat sender.back prepared.length)
    (fits : prepared.length + bytes.length ≤ sender.room) (roomy : sender.room < sizeOfBuffer.toNat)
    (ends : offset.toNat + bytes.length ≤ sizeOfBuffer.toNat)
    (later : ∀ slot, span slot sizeOfBuffer.toNat sender.back (prepared ++ bytes).length =
      prepared ++ bytes → post () { sender with slot := slot }) :
    Writes sizeOfBuffer.toNat waits post (storeBytes offset bytes) sender := by
  induction bytes generalizing sender prepared offset with
  | nil =>
      rw [List.append_nil] at later
      exact later sender.slot isPrepared
  | cons byte rest ih =>
      have here := starts (List.cons_ne_nil _ _)
      simp only [List.length_cons] at fits ends
      refine ⟨⟨prepared.length, by omega, here⟩, ?_⟩
      have split : prepared ++ byte :: rest = (prepared ++ [byte]) ++ rest := by simp
      have long : (prepared ++ [byte]).length = prepared.length + 1 := by simp
      refine ih belowBack (?_ : span _ _ _ (prepared ++ [byte]).length = prepared ++ [byte]) ?_ ?_ roomy ?_ ?_
      · have before : span (Function.update sender.slot offset.toNat byte) sizeOfBuffer.toNat
            sender.back prepared.length = prepared := by
          rw [span_congr sender.slot, isPrepared]
          intro index inside
          refine Function.update_of_ne ?_ _ _
          rw [here]
          intro same
          have equal := place_inj (by omega) (by omega) same
          omega
        rw [long, span_add belowBack (by omega), before, ← here]
        have onlyOne : place sizeOfBuffer.toNat offset.toNat 0 = offset.toNat :=
          place_zero (by omega)
        simp [span, onlyOne]
      · intro more
        have some_ : 0 < rest.length := List.length_pos_iff.mpr more
        have next : (offset + 1).toNat = offset.toNat + 1 := by bv_omega
        rw [next, long, here]
        have one : place sizeOfBuffer.toNat (place sizeOfBuffer.toNat sender.back prepared.length) 1 =
          place sizeOfBuffer.toNat sender.back (prepared.length + 1) := place_place belowBack (by omega)
        rw [← one, ← here, place, if_pos (by omega)]
      · simp only [long]
        omega
      · have next : (offset + 1).toNat ≤ offset.toNat + 1 := by
          rw [BitVec.toNat_add]
          exact Nat.mod_le _ _
        omega
      · intro slot isStored
        rw [← split] at isStored
        exact later slot isStored

theorem writes_memcpyTo {post : Unit → Sender Byte → Prop} (prepared : List Byte) {offset : Word}
    (belowBack : sender.back < sizeOfBuffer.toNat)
    (isPrepared : span sender.slot sizeOfBuffer.toNat sender.back prepared.length = prepared)
    (inData : numBytes.toNat ≤ data.length)
    (starts : numBytes ≠ 0 → offset.toNat = place sizeOfBuffer.toNat sender.back prepared.length)
    (fits : prepared.length + numBytes.toNat ≤ sender.room)
    (roomy : sender.room < sizeOfBuffer.toNat)
    (ends : offset.toNat + numBytes.toNat ≤ sizeOfBuffer.toNat)
    (later : ∀ slot, span slot sizeOfBuffer.toNat sender.back (prepared.length + numBytes.toNat) =
      prepared ++ data.take numBytes.toNat → post () { sender with slot := slot }) :
    Writes sizeOfBuffer.toNat waits post (memcpyTo offset data numBytes) sender := by
  have long : (data.take numBytes.toNat).length = numBytes.toNat := List.length_take_of_le inData
  refine writes_storeBytes belowBack isPrepared ?_ (by omega) roomy (by omega) ?_
  · intro some_
    apply starts
    rintro rfl
    exact some_ (by simp)
  · intro slot isStored
    apply later
    rwa [List.length_append, long] at isStored

theorem writes_memcpyTo_back {post : Unit → Sender Byte → Prop} {offset : Word}
    (atBack : offset.toNat = sender.back) (inData : numBytes.toNat ≤ data.length)
    (fits : numBytes.toNat ≤ sender.room) (roomy : sender.room < sizeOfBuffer.toNat)
    (belowBack : sender.back < sizeOfBuffer.toNat)
    (ends : sender.back + numBytes.toNat ≤ sizeOfBuffer.toNat)
    (later : ∀ slot, span slot sizeOfBuffer.toNat sender.back numBytes.toNat =
      data.take numBytes.toNat → post () { sender with slot := slot }) :
    Writes sizeOfBuffer.toNat waits post (memcpyTo offset data numBytes) sender := by
  refine writes_memcpyTo [] belowBack rfl inData ?_ (by simpa using fits) roomy
    (by omega) ?_
  · intro _
    rw [atBack, List.length_nil, place_zero belowBack]
  · intro slot isStored
    apply later
    simpa using isStored

theorem writes_getAvailWriteSpace {post : Word → Sender Byte → Prop}
    (belowBack : sender.back < sizeOfBuffer.toNat)
    (later : ∀ avail : Word, sender.room ≤ avail.toNat → avail.toNat < sizeOfBuffer.toNat →
      post avail { sender with room := avail.toNat }) :
    Writes sizeOfBuffer.toNat waits post (getAvailWriteSpace sizeOfBuffer) sender := by
  refine Writes.bind (writes_rdOff fun readOffset below known => ?_)
  refine Writes.bind (writes_wrOff belowBack fun offset atBack => ?_)
  simp only at atBack
  have bound := count_lt below belowBack
  by_cases before : readOffset ≤ offset
  · rw [if_pos before]
    have exact_ := toNat_avail_before before (atBack ▸ belowBack)
    rw [atBack] at exact_
    have found := later (sizeOfBuffer - 1 - offset + readOffset)
    rw [exact_] at found
    refine found known ?_
    unfold free
    omega
  · rw [if_neg before]
    have exact_ := toNat_avail_behind before below
    rw [atBack] at exact_
    have found := later (readOffset - offset - 1)
    rw [exact_] at found
    refine found known ?_
    unfold free
    omega

def sentMore (size : Nat) (sender : Sender Byte) (bytes : List Byte) (slot : Nat → Byte) :
    Sender Byte where
  slot := slot
  back := place size sender.back bytes.length
  room := sender.room - bytes.length
  sent := sender.sent ++ bytes

theorem writes_publish {post : Unit → Sender Byte → Prop} {offset : Word} (bytes : List Byte)
    (isPrepared : span sender.slot sizeOfBuffer.toNat sender.back bytes.length = bytes)
    (inside : bytes.length ≤ sender.room)
    (isPlace : offset.toNat = place sizeOfBuffer.toNat sender.back bytes.length)
    (later : post () (sentMore sizeOfBuffer.toNat sender bytes sender.slot)) :
    Writes sizeOfBuffer.toNat waits post (setWrOff offset) sender := by
  refine writes_setWrOff inside isPlace ?_
  rw [isPrepared, isPlace]
  exact later

theorem writes_memcpyTo_start {post : Unit → Sender Byte → Prop} {offset : Word}
    (atBack : offset.toNat = sender.back) (belowBack : sender.back < sizeOfBuffer.toNat)
    (inData : numBytes.toNat ≤ data.length) (fits : numBytes.toNat ≤ sender.room)
    (roomy : sender.room < sizeOfBuffer.toNat) (wraps : ¬ sizeOfBuffer - offset > numBytes)
    (isStored : span sender.slot sizeOfBuffer.toNat sender.back (sizeOfBuffer - offset).toNat =
      data.take (sizeOfBuffer - offset).toNat)
    (later : ∀ slot,
      span slot sizeOfBuffer.toNat sender.back numBytes.toNat = data.take numBytes.toNat →
        post () { sender with slot := slot }) :
    Writes sizeOfBuffer.toNat waits post
      (memcpyTo 0 (data.drop (sizeOfBuffer - offset).toNat) (numBytes - (sizeOfBuffer - offset)))
      sender := by
  have belowOffset : offset.toNat < sizeOfBuffer.toNat := by omega
  have remaining : (sizeOfBuffer - offset).toNat = sizeOfBuffer.toNat - sender.back := by
    rw [toNat_untilEnd belowOffset, atBack]
  rw [untilEnd_gt belowOffset] at wraps
  have fewer : (sizeOfBuffer - offset).toNat ≤ numBytes.toNat := by omega
  have rest := toNat_rest fewer
  have first : (data.take (sizeOfBuffer - offset).toNat).length = (sizeOfBuffer - offset).toNat :=
    List.length_take_of_le (by omega)
  have start : place sizeOfBuffer.toNat sender.back (sizeOfBuffer - offset).toNat = 0 := by
    rw [place, if_neg (by omega)]
    omega
  refine writes_memcpyTo (data.take (sizeOfBuffer - offset).toNat) belowBack ?_ ?_ ?_ ?_ roomy ?_ ?_
  · rw [first]
    exact isStored
  · rw [List.length_drop]
    omega
  · intro _
    rw [first, start]
    rfl
  · rw [first, rest, Nat.add_sub_cancel' fewer]
    exact fits
  · rw [rest, toNat_zero]
    omega
  · intro whole isWhole
    rw [first, ← List.take_add, rest, Nat.add_sub_cancel' fewer] at isWhole
    exact later whole isWhole

theorem toNat_sub_eq_place {offset : Word} (atBack : offset.toNat = sender.back)
    (belowBack : sender.back < sizeOfBuffer.toNat)
    (wraps : ¬ sizeOfBuffer - offset > numBytes) :
    (numBytes - (sizeOfBuffer - offset)).toNat =
      place sizeOfBuffer.toNat sender.back numBytes.toNat := by
  have belowOffset : offset.toNat < sizeOfBuffer.toNat := by omega
  have remaining := toNat_untilEnd belowOffset
  rw [untilEnd_gt belowOffset] at wraps
  rw [toNat_rest (by omega), place, if_neg (by omega)]
  omega

theorem writes_writeNoCheck {post : Unit → Sender Byte → Prop}
    (belowBack : sender.back < sizeOfBuffer.toNat) (inData : numBytes.toNat ≤ data.length)
    (fits : numBytes.toNat ≤ sender.room) (roomy : sender.room < sizeOfBuffer.toNat)
    (later : ∀ slot,
      post () (sentMore sizeOfBuffer.toNat sender (data.take numBytes.toNat) slot)) :
    Writes sizeOfBuffer.toNat waits post (writeNoCheck sizeOfBuffer data numBytes) sender := by
  have long : (data.take numBytes.toNat).length = numBytes.toNat := List.length_take_of_le inData
  refine Writes.bind (writes_wrOff belowBack fun offset atBack => ?_)
  have belowOffset : offset.toNat < sizeOfBuffer.toNat := by omega
  by_cases before : sizeOfBuffer - offset > numBytes
  · rw [if_pos before]
    have ends := (untilEnd_gt belowOffset).mp before
    rw [atBack] at ends
    have small := sizeOfBuffer.isLt
    refine Writes.bind (writes_memcpyTo_back atBack inData fits roomy belowBack (by omega) ?_)
    intro slot isStored
    refine writes_publish (data.take numBytes.toNat) ?_ ?_ ?_ (later slot)
    · rw [long]
      exact isStored
    · rw [long]
      exact fits
    · rw [long, place, if_pos ends, toNat_sum (by omega), atBack]
  · rw [if_neg before]
    have remaining := toNat_untilEnd belowOffset
    have wraps := mt (untilEnd_gt belowOffset).mpr before
    refine Writes.bind (writes_memcpyTo_back atBack (by omega) (by omega) roomy belowBack
      (by omega) ?_)
    intro slot isStored
    refine Writes.bind (writes_memcpyTo_start atBack belowBack inData fits roomy before isStored ?_)
    intro whole isWhole
    refine writes_publish (data.take numBytes.toNat) ?_ ?_ ?_ (later whole)
    · rw [long]
      exact isWhole
    · rw [long]
      exact fits
    · rw [long]
      exact toNat_sub_eq_place atBack belowBack before

theorem toNat_numBytesToWrite (numBytes : Word) {readOffset offset : Word}
    (below : readOffset.toNat < sizeOfBuffer.toNat) (belowBack : offset.toNat < sizeOfBuffer.toNat) :
    (numBytesToWrite sizeOfBuffer readOffset offset numBytes).toNat =
      min (min (free sizeOfBuffer.toNat readOffset.toNat offset.toNat)
        (sizeOfBuffer.toNat - offset.toNat)) numBytes.toNat := by
  have untilEnd : (sizeOfBuffer - offset).toNat = sizeOfBuffer.toNat - offset.toNat := by bv_omega
  unfold numBytesToWrite free count
  rw [toNat_minWord, toNat_minWord, untilEnd]
  congr 2
  by_cases behind : readOffset > offset
  · rw [if_pos behind, if_neg (by bv_omega)]
    bv_omega
  · rw [if_neg behind, if_pos (by bv_omega)]
    bv_omega

theorem writes_writeChunk {post : Word → Sender Byte → Prop} {offset : Word}
    (atBack : offset.toNat = sender.back) (inData : numBytes.toNat ≤ data.length)
    (fits : numBytes.toNat ≤ sender.room) (roomy : sender.room < sizeOfBuffer.toNat)
    (belowBack : sender.back < sizeOfBuffer.toNat)
    (ends : sender.back + numBytes.toNat ≤ sizeOfBuffer.toNat)
    (later : ∀ slot, ∀ next : Word,
      next.toNat = place sizeOfBuffer.toNat sender.back (data.take numBytes.toNat).length →
        post next (sentMore sizeOfBuffer.toNat sender (data.take numBytes.toNat) slot)) :
    Writes sizeOfBuffer.toNat waits post (writeChunk sizeOfBuffer offset data numBytes) sender := by
  have long : (data.take numBytes.toNat).length = numBytes.toNat := List.length_take_of_le inData
  refine Writes.bind (writes_memcpyTo_back atBack inData fits roomy belowBack ends ?_)
  intro slot isStored
  have isPlace : (if offset + numBytes = sizeOfBuffer then 0 else offset + numBytes).toNat =
      place sizeOfBuffer.toNat sender.back (data.take numBytes.toNat).length := by
    rw [long, ← atBack]
    exact toNat_next_chunk (by omega) (by omega)
  refine Writes.bind (writes_publish (data.take numBytes.toNat) ?_ ?_ isPlace ?_)
  · rw [long]
    exact isStored
  · rw [long]
    exact fits
  · exact later slot _ isPlace

theorem writes_writeBlockingLoop {post : Word → Sender Byte → Prop} {rounds : Nat}
    {numBytesWritten offset : Word} (belowBack : sender.back < sizeOfBuffer.toNat)
    (atBack : offset.toNat = sender.back) (inData : numBytes.toNat ≤ data.length)
    (goes : waits ∨ numBytes.toNat ≤ sender.room ∧
      (2 ≤ rounds ∨ 1 ≤ rounds ∧ sender.back + numBytes.toNat ≤ sizeOfBuffer.toNat))
    (later : ∀ slot, ∀ back < sizeOfBuffer.toNat, ∀ room < sizeOfBuffer.toNat,
      sender.room - numBytes.toNat ≤ room →
        post (numBytesWritten + numBytes)
          ⟨slot, back, room, sender.sent ++ data.take numBytes.toNat⟩) :
    Writes sizeOfBuffer.toNat waits post
      (writeBlockingLoop sizeOfBuffer rounds numBytesWritten offset data numBytes) sender := by
  induction rounds generalizing sender numBytesWritten offset data numBytes with
  | zero =>
      rcases goes with may | ⟨_, more | ⟨more, _⟩⟩
      · exact may
      · omega
      · omega
  | succ rounds ih =>
      refine Writes.bind (writes_rdOff fun readOffset below known => ?_)
      obtain ⟨chunk, chunkIs⟩ :
          ∃ chunk, numBytesToWrite sizeOfBuffer readOffset offset numBytes = chunk := ⟨_, rfl⟩
      have belowOffset : offset.toNat < sizeOfBuffer.toNat := by omega
      have size_eq := toNat_numBytesToWrite numBytes below belowOffset
      simp only [chunkIs, atBack] at size_eq ⊢
      have roomy : free sizeOfBuffer.toNat readOffset.toNat sender.back < sizeOfBuffer.toNat := by
        unfold free
        omega
      have long : (data.take chunk.toNat).length = chunk.toNat :=
        List.length_take_of_le (by omega)
      have inChunk : chunk.toNat ≤ data.length := by omega
      have fitsChunk : chunk.toNat ≤ free sizeOfBuffer.toNat readOffset.toNat sender.back := by omega
      have endsChunk : sender.back + chunk.toNat ≤ sizeOfBuffer.toNat := by omega
      have belowNext : place sizeOfBuffer.toNat sender.back (data.take chunk.toNat).length <
          sizeOfBuffer.toNat := place_lt belowBack (by omega)
      refine Writes.bind (writes_writeChunk atBack inChunk fitsChunk roomy belowBack endsChunk ?_)
      intro slot next isNext
      by_cases ends : numBytes - chunk = 0
      · have all : chunk = numBytes := (rest_eq_zero.mp ends).symm
        subst all
        rw [if_pos ends]
        refine later slot _ belowNext _ ?_ ?_
        · exact Nat.lt_of_le_of_lt (Nat.sub_le _ _) roomy
        · rw [long]
          exact Nat.sub_le_sub_right known _
      · rw [if_neg ends]
        have rest : (numBytes - chunk).toNat = numBytes.toNat - chunk.toNat :=
          toNat_rest (by omega)
        have some_ : 0 < (numBytes - chunk).toNat :=
          Nat.pos_of_ne_zero fun zero => ends (BitVec.eq_of_toNat_eq zero)
        refine ih belowNext isNext ?_ ?_ ?_
        · rw [rest, List.length_drop]
          omega
        · rcases goes with may | ⟨fits, enough⟩
          · exact Or.inl may
          · refine Or.inr ⟨?_, Or.inr ⟨?_, ?_⟩⟩
            · simp only [sentMore, long, rest]
              omega
            · omega
            · simp only [sentMore, long, rest, place]
              split
              · omega
              · omega
        · intro slot back below room roomy enough
          have joined : data.take chunk.toNat ++
              (data.drop chunk.toNat).take (numBytes - chunk).toNat = data.take numBytes.toNat := by
            rw [← List.take_add, rest, Nat.add_sub_cancel' (by omega)]
          have summed : numBytesWritten + chunk + (numBytes - chunk) = numBytesWritten + numBytes := by
            rw [BitVec.add_assoc, add_rest]
          rw [sentMore, List.append_assoc, joined, summed]
          refine later slot back below room roomy ?_
          simp only [sentMore, long, rest] at enough
          omega

theorem writes_writeBlocking {post : Word → Sender Byte → Prop} {rounds : Nat}
    (belowBack : sender.back < sizeOfBuffer.toNat) (inData : numBytes.toNat ≤ data.length)
    (goes : waits ∨ numBytes.toNat ≤ sender.room ∧ 2 ≤ rounds)
    (later : ∀ slot, ∀ back < sizeOfBuffer.toNat, ∀ room < sizeOfBuffer.toNat,
      sender.room - numBytes.toNat ≤ room →
        post numBytes ⟨slot, back, room, sender.sent ++ data.take numBytes.toNat⟩) :
    Writes sizeOfBuffer.toNat waits post (writeBlocking sizeOfBuffer rounds data numBytes)
      sender := by
  refine Writes.bind (writes_wrOff belowBack fun offset atBack => ?_)
  refine writes_writeBlockingLoop belowBack atBack inData ?_ ?_
  · rcases goes with may | ⟨fits, enough⟩
    · exact Or.inl may
    · exact Or.inr ⟨fits, Or.inl enough⟩
  · have same : 0 + numBytes = numBytes := BitVec.zero_add numBytes
    rw [same]
    exact later

/-- What a write sends: in skip mode all or nothing, in blocking mode all, in an unknown mode nothing. -/
def Written (flags : Word) (data : List Byte) (status : Word) (moved : List Byte) : Prop :=
  moved = data.take status.toNat ∧ status.toNat ≤ data.length ∧
    (flags = rttModeNoBlockSkip → status.toNat = 0 ∨ status.toNat = data.length) ∧
    (flags = rttModeBlockIfFifoFull → status.toNat = data.length) ∧
    (flags.toNat > 2 → status.toNat = 0)

theorem writes_writeNoLock {post : Word → Sender Byte → Prop} {flags : Word} {rounds : Nat}
    (belowBack : sender.back < sizeOfBuffer.toNat) (whole : numBytes.toNat = data.length)
    (blocks : flags = rttModeBlockIfFifoFull → waits)
    (later : ∀ status (after : Sender Byte) moved, after.sent = sender.sent ++ moved →
      Written flags data status moved → post status after) :
    Writes sizeOfBuffer.toNat waits post (writeNoLock sizeOfBuffer flags rounds data numBytes)
      sender := by
  unfold writeNoLock
  by_cases skips : flags = rttModeNoBlockSkip
  · subst skips
    rw [if_pos rfl]
    refine Writes.bind (writes_getAvailWriteSpace belowBack fun avail known roomy => ?_)
    by_cases full : avail < numBytes
    · rw [if_pos full]
      refine later 0 _ [] ?_ ?_
      · rw [List.append_nil]
      · refine ⟨by rw [toNat_zero, List.take_zero], Nat.zero_le _, fun _ => Or.inl rfl, ?_, ?_⟩
        · intro other
          exact absurd other (by decide)
        · intro _
          exact toNat_zero
    · rw [if_neg full]
      have fits : numBytes.toNat ≤ avail.toNat := Nat.le_of_not_lt full
      refine Writes.bind (writes_writeNoCheck belowBack (by omega) fits roomy ?_)
      intro slot
      refine later numBytes _ (data.take numBytes.toNat) rfl ⟨rfl, by omega, ?_, ?_, ?_⟩
      · intro _
        exact Or.inr whole
      · intro _
        exact whole
      · intro other
        exact absurd other (by decide)
  rw [if_neg skips]
  by_cases trims : flags = rttModeNoBlockTrim
  · subst trims
    rw [if_pos rfl]
    refine Writes.bind (writes_getAvailWriteSpace belowBack fun avail known roomy => ?_)
    have fits : (if avail < numBytes then avail else numBytes).toNat ≤ avail.toNat ∧
        (if avail < numBytes then avail else numBytes).toNat ≤ data.length := by
      split
      · have less : avail.toNat < numBytes.toNat := ‹_›
        omega
      · have less : ¬ avail.toNat < numBytes.toNat := ‹_›
        omega
    refine Writes.bind (writes_writeNoCheck belowBack fits.2 fits.1 roomy ?_)
    intro slot
    refine later _ _ _ rfl ⟨rfl, fits.2, ?_, ?_, ?_⟩
    · intro other
      exact absurd other skips
    · intro other
      exact absurd other (by decide)
    · intro other
      exact absurd other (by decide)
  rw [if_neg trims]
  by_cases full : flags = rttModeBlockIfFifoFull
  · rw [if_pos full]
    refine writes_writeBlocking belowBack (by omega) (Or.inl (blocks full)) ?_
    intro slot back below room roomy _
    refine later _ _ _ rfl ⟨rfl, by omega, ?_, ?_, ?_⟩
    · intro other
      exact absurd other skips
    · intro _
      exact whole
    · subst full
      intro other
      exact absurd other (by decide)
  · rw [if_neg full]
    refine later 0 _ [] ?_ ?_
    · rw [List.append_nil]
    · refine ⟨by rw [toNat_zero, List.take_zero], Nat.zero_le _, fun _ => Or.inl rfl, ?_, ?_⟩
      · intro other
        exact absurd other full
      · intro _
        exact toNat_zero

def AllOrNothing (data : List Byte) (status : Word) (moved : List Byte) : Prop :=
  status = 1 ∧ moved = data ∨ status = 0 ∧ moved = []

theorem writes_writeSkipNoLock {post : Word → Sender Byte → Prop}
    (belowBack : sender.back < sizeOfBuffer.toNat) (whole : numBytes.toNat = data.length)
    (later : ∀ status (after : Sender Byte) moved, after.sent = sender.sent ++ moved →
      AllOrNothing data status moved → post status after) :
    Writes sizeOfBuffer.toNat waits post (writeSkipNoLock sizeOfBuffer data numBytes) sender := by
  have all : data.take numBytes.toNat = data := by rw [whole, List.take_length]
  have inData : numBytes.toNat ≤ data.length := Nat.le_of_eq whole
  refine Writes.bind (writes_rdOff fun readOffset below known => ?_)
  refine Writes.bind (writes_wrOff belowBack fun offset atBack => ?_)
  simp only at atBack
  have none_ : post 0 { sender with
      room := free sizeOfBuffer.toNat readOffset.toNat sender.back } :=
    later 0 _ [] (List.append_nil _).symm (Or.inr ⟨rfl, rfl⟩)
  have belowOffset : offset.toNat < sizeOfBuffer.toNat := by omega
  have small := sizeOfBuffer.isLt
  have roomy : free sizeOfBuffer.toNat readOffset.toNat sender.back < sizeOfBuffer.toNat := by
    unfold free
    omega
  -- what is stored before the end of the buffer
  have oneChunk : numBytes.toNat ≤ free sizeOfBuffer.toNat readOffset.toNat sender.back →
      sender.back + numBytes.toNat < sizeOfBuffer.toNat →
        Writes sizeOfBuffer.toNat waits post (do
          memcpyTo offset data numBytes
          setWrOff (offset + numBytes)
          return 1) { sender with room := free sizeOfBuffer.toNat readOffset.toNat sender.back } := by
    intro fits ends
    refine Writes.bind (writes_memcpyTo_back atBack inData fits roomy belowBack
      (Nat.le_of_lt ends) ?_)
    intro slot isStored
    rw [all, whole] at isStored
    refine Writes.bind (writes_publish _ isStored (whole ▸ fits) ?_ ?_)
    · rw [← whole, place, if_pos ends, toNat_sum (by omega), atBack]
    · exact later 1 _ data rfl (Or.inl ⟨rfl, rfl⟩)
  by_cases before : readOffset ≤ offset
  · rw [if_pos before]
    have isFree := @free_of_le sizeOfBuffer readOffset offset before
    rw [atBack] at isFree
    by_cases first : sizeOfBuffer - offset - 1 ≥ numBytes
    · rw [if_pos first]
      have ends := (fits_before_end belowOffset).mp first
      exact oneChunk (by omega) (by omega)
    rw [if_neg first]
    by_cases second : sizeOfBuffer - offset - 1 + readOffset ≥ numBytes
    · rw [if_pos second]
      have fits := (fits_around_end before belowOffset).mp second
      rw [atBack] at fits
      have around := mt (fits_before_end belowOffset).mpr first
      have wraps : ¬ sizeOfBuffer - offset > numBytes := mt (untilEnd_gt belowOffset).mp around
      have remaining := toNat_untilEnd belowOffset
      have isPlace := toNat_sub_eq_place atBack belowBack wraps
      rw [whole] at isPlace
      have untilEnd : (sizeOfBuffer - offset).toNat ≤ numBytes.toNat := by omega
      have ends : sender.back + (sizeOfBuffer - offset).toNat ≤ sizeOfBuffer.toNat := by omega
      refine Writes.bind (writes_memcpyTo_back atBack (Nat.le_trans untilEnd inData)
        (Nat.le_trans untilEnd fits) roomy belowBack ends ?_)
      intro slot isStored
      by_cases more : numBytes - (sizeOfBuffer - offset) ≠ 0
      · rw [if_pos more]
        refine Writes.bind
          (writes_memcpyTo_start atBack belowBack inData fits roomy wraps isStored ?_)
        intro all_ isWhole
        rw [all, whole] at isWhole
        refine Writes.bind (writes_publish _ isWhole (whole ▸ fits) isPlace ?_)
        exact later 1 _ data rfl (Or.inl ⟨rfl, rfl⟩)
      · rw [if_neg more]
        have same : sizeOfBuffer - offset = numBytes := (rest_eq_zero.mp (not_not.mp more)).symm
        rw [same, all, whole] at isStored
        refine Writes.bind (writes_publish _ isStored (whole ▸ fits) isPlace ?_)
        exact later 1 _ data rfl (Or.inl ⟨rfl, rfl⟩)
    · rw [if_neg second]
      exact none_
  · rw [if_neg before]
    have isFree := @free_of_not_le sizeOfBuffer readOffset offset before
    by_cases fits : readOffset - offset - 1 ≥ numBytes
    · rw [if_pos fits]
      have enough := (fits_up_to_front before below).mp fits
      rw [atBack] at isFree enough
      exact oneChunk enough (by omega)
    · rw [if_neg fits]
      exact none_

theorem toNat_nextOffset {offset : Word} (belowBack : offset.toNat < sizeOfBuffer.toNat) :
    (nextOffset sizeOfBuffer offset).toNat = inc sizeOfBuffer.toNat offset.toNat := by
  unfold nextOffset inc
  by_cases wraps : offset + 1 = sizeOfBuffer
  · rw [if_pos wraps, if_pos (by bv_omega), toNat_zero]
  · rw [if_neg wraps, if_neg (by bv_omega)]
    bv_omega

theorem inc_eq_place {size back : Nat} (belowBack : back < size) : inc size back = place size back 1 := by
  unfold inc place
  split <;> split <;> omega

theorem writes_storeIfFits {post : Word → Sender Byte → Prop} {byte : Byte} {next : Word}
    (belowBack : sender.back < sizeOfBuffer.toNat)
    (isNext : next.toNat = inc sizeOfBuffer.toNat sender.back)
    (later : ∀ status (after : Sender Byte) moved, after.sent = sender.sent ++ moved →
      AllOrNothing [byte] status moved → (1 ≤ sender.room → status = 1) → post status after) :
    Writes sizeOfBuffer.toNat waits post (storeIfFits byte next) sender := by
  refine Writes.bind (writes_rdOff fun readOffset below known => ?_)
  have bound := count_lt below belowBack
  have isFull := count_eq_pred below belowBack
  by_cases fits : next ≠ readOffset
  · rw [if_pos fits]
    have some_ : 1 ≤ free sizeOfBuffer.toNat readOffset.toNat sender.back := by
      have other : inc sizeOfBuffer.toNat sender.back ≠ readOffset.toNat := by
        rw [← isNext]
        bv_omega
      have spare := mt isFull.mp other
      unfold free
      omega
    have roomy : free sizeOfBuffer.toNat readOffset.toNat sender.back < sizeOfBuffer.toNat := by
      unfold free
      omega
    refine Writes.bind (writes_wrOff belowBack fun offset atBack => ?_)
    refine ⟨⟨0, some_, ?_⟩, ?_⟩
    · rw [atBack, place_zero belowBack]
    · change Writes _ _ post (setWrOff next >>= fun _ => pure 1) _
      refine Writes.bind (writes_publish [byte] ?_ some_ ?_ ?_)
      · have here : place sizeOfBuffer.toNat sender.back 0 = offset.toNat := by
          rw [place_zero belowBack]
          exact atBack.symm
        simp [span, here]
      · rw [isNext]
        exact inc_eq_place belowBack
      · exact later 1 _ [byte] rfl (Or.inl ⟨rfl, rfl⟩) fun _ => rfl
  · rw [if_neg fits]
    have same : next = readOffset := not_not.mp fits
    refine later 0 _ [] (List.append_nil _).symm (Or.inr ⟨rfl, rfl⟩) ?_
    intro some_
    have full := isFull.mpr (by rw [← isNext, same])
    unfold free at known
    omega

theorem writes_putCharSkipNoLock {post : Word → Sender Byte → Prop} {byte : Byte}
    (belowBack : sender.back < sizeOfBuffer.toNat)
    (later : ∀ status (after : Sender Byte) moved, after.sent = sender.sent ++ moved →
      AllOrNothing [byte] status moved → post status after) :
    Writes sizeOfBuffer.toNat waits post (putCharSkipNoLock sizeOfBuffer byte) sender := by
  refine Writes.bind (writes_wrOff belowBack fun offset atBack => ?_)
  refine writes_storeIfFits belowBack ?_ fun status after moved sent kept _ =>
    later status after moved sent kept
  rw [toNat_nextOffset (by omega), atBack]

theorem writes_waitForSpace {post : Unit → Sender Byte → Prop} {next : Word} {rounds : Nat}
    (may : waits) (belowBack : sender.back < sizeOfBuffer.toNat)
    (isNext : next.toNat = inc sizeOfBuffer.toNat sender.back)
    (later : ∀ room, 1 ≤ room → post () { sender with room := room }) :
    Writes sizeOfBuffer.toNat waits post (waitForSpace next rounds) sender := by
  induction rounds generalizing sender with
  | zero => exact may
  | succ rounds ih =>
      refine Writes.bind (writes_rdOff fun readOffset below known => ?_)
      by_cases full : next = readOffset
      · rw [if_pos full]
        exact ih belowBack isNext later
      · rw [if_neg full]
        apply later
        have bound := count_lt below belowBack
        have spare : ¬ count sizeOfBuffer.toNat readOffset.toNat sender.back + 1 =
            sizeOfBuffer.toNat := by
          rw [count_eq_pred below belowBack, ← isNext]
          bv_omega
        unfold free
        omega

theorem writes_putChar {post : Word → Sender Byte → Prop} {flags : Word} {rounds : Nat}
    {byte : Byte} (belowBack : sender.back < sizeOfBuffer.toNat)
    (blocks : flags = rttModeBlockIfFifoFull → waits)
    (later : ∀ status (after : Sender Byte) moved, after.sent = sender.sent ++ moved →
      AllOrNothing [byte] status moved → (flags = rttModeBlockIfFifoFull → status = 1) →
        post status after) :
    Writes sizeOfBuffer.toNat waits post (putChar sizeOfBuffer flags rounds byte) sender := by
  refine Writes.bind (writes_wrOff belowBack fun offset atBack => ?_)
  have isNext : (nextOffset sizeOfBuffer offset).toNat = inc sizeOfBuffer.toNat sender.back := by
    rw [toNat_nextOffset (by omega), atBack]
  by_cases mode : flags = rttModeBlockIfFifoFull
  · rw [if_pos mode]
    refine Writes.bind (writes_waitForSpace (blocks mode) belowBack isNext fun room some_ => ?_)
    exact writes_storeIfFits belowBack isNext fun status after moved sent kept fits =>
      later status after moved sent kept fun _ => fits some_
  · rw [if_neg mode]
    exact writes_storeIfFits belowBack isNext fun status after moved sent kept _ =>
      later status after moved sent kept fun other => absurd other mode

/-- What switching the terminal for good sends: the switch, or nothing if it fails, which it does only
for an unknown terminal or in a mode that does not block. -/
def Switched (flags : Word) (activeTerminal terminalId : Byte) (status : Int) (after : Byte)
    (moved : List Byte) : Prop :=
  status = 0 ∧ terminalId.toNat < 16 ∧ after = terminalId ∧ moved = terminalSwitch terminalId ∨
    status = -1 ∧ after = activeTerminal ∧ moved = [] ∧
      (terminalId.toNat < 16 → flags &&& rttModeMask ≠ rttModeBlockIfFifoFull)

theorem writes_setTerminal {post : Int × Byte → Sender Byte → Prop} {flags : Word} {rounds : Nat}
    {activeTerminal terminalId : Byte} (belowBack : sender.back < sizeOfBuffer.toNat)
    (blocks : flags &&& rttModeMask = rttModeBlockIfFifoFull → waits)
    (later : ∀ result (after : Sender Byte) moved, after.sent = sender.sent ++ moved →
      Switched flags activeTerminal terminalId result.1 result.2 moved → post result after) :
    Writes sizeOfBuffer.toNat waits post
      (setTerminal sizeOfBuffer flags rounds activeTerminal terminalId) sender := by
  have two : (2 : Word).toNat = (terminalSwitch terminalId).length := rfl
  have whole : (terminalSwitch terminalId).take (2 : Word).toNat = terminalSwitch terminalId := by
    rw [two, List.take_length]
  unfold setTerminal
  by_cases known : terminalId.toNat < aTerminalId.length
  · rw [if_pos known]
    have isKnown : terminalId.toNat < 16 := known
    by_cases mode : flags &&& rttModeMask = rttModeBlockIfFifoFull
    · rw [if_pos mode]
      refine Writes.bind (writes_writeBlocking belowBack (Nat.le_of_eq two)
        (Or.inl (blocks mode)) ?_)
      intro slot back below room roomy _
      rw [whole]
      exact later _ _ _ rfl (Or.inl ⟨rfl, isKnown, rfl, rfl⟩)
    · rw [if_neg mode]
      refine Writes.bind (writes_getAvailWriteSpace belowBack fun avail _ roomy => ?_)
      by_cases fits : avail ≥ 2
      · rw [if_pos fits]
        refine Writes.bind (writes_writeNoCheck belowBack (Nat.le_of_eq two) fits roomy ?_)
        intro slot
        rw [whole]
        exact later _ _ _ rfl (Or.inl ⟨rfl, isKnown, rfl, rfl⟩)
      · rw [if_neg fits]
        exact later _ _ [] (List.append_nil _).symm (Or.inr ⟨rfl, rfl, rfl, fun _ => mode⟩)
  · rw [if_neg known]
    refine later _ _ [] (List.append_nil _).symm (Or.inr ⟨rfl, rfl, rfl, ?_⟩)
    intro other
    exact absurd other known

theorem writes_writeToTerminal {post : Int → Sender Byte → Prop} {rounds : Nat}
    {activeTerminal terminalId : Byte} (belowBack : sender.back < sizeOfBuffer.toNat)
    (inData : numBytes.toNat ≤ data.length)
    (goes : waits ∨ numBytes.toNat + 4 ≤ sender.room ∧ 2 ≤ rounds)
    (later : ∀ after : Sender Byte,
      after.sent = sender.sent ++ (terminalSwitch terminalId ++ data.take numBytes.toNat ++
        terminalSwitch activeTerminal) → post numBytes.toInt after) :
    Writes sizeOfBuffer.toNat waits post
      (writeToTerminal sizeOfBuffer rounds activeTerminal terminalId data numBytes) sender := by
  have two : ∀ terminal, (2 : Word).toNat = (terminalSwitch terminal).length := fun _ => rfl
  have whole : ∀ terminal, (terminalSwitch terminal).take (2 : Word).toNat =
      terminalSwitch terminal := fun terminal => by rw [two terminal, List.take_length]
  have isTwo : (2 : Word).toNat = 2 := rfl
  have goes₁ : waits ∨ (2 : Word).toNat ≤ sender.room ∧ 2 ≤ rounds := goes.imp_right (by omega)
  refine Writes.bind (writes_writeBlocking belowBack (Nat.le_of_eq (two _)) goes₁ ?_)
  intro slot₁ back₁ below₁ room₁ roomy₁ left₁
  have goes₂ : waits ∨ numBytes.toNat ≤ room₁ ∧ 2 ≤ rounds := goes.imp_right (by omega)
  refine Writes.bind (writes_writeBlocking below₁ inData goes₂ ?_)
  intro slot₂ back₂ below₂ room₂ roomy₂ left₂
  simp only at left₂
  have goes₃ : waits ∨ (2 : Word).toNat ≤ room₂ ∧ 2 ≤ rounds := goes.imp_right (by omega)
  refine Writes.bind (writes_writeBlocking below₂ (Nat.le_of_eq (two _)) goes₃ ?_)
  intro slot₃ back₃ below₃ room₃ roomy₃ _
  refine later _ ?_
  simp only [whole, List.append_assoc]

/-- What a string for a terminal sends: a switch to it, the string and a switch back, or nothing.  Only
the trim mode shortens the string, and the blocking mode never fails for a known terminal. -/
def PutOut (flags : Word) (activeTerminal terminalId : Byte) (string : List Byte) (status : Int)
    (moved : List Byte) : Prop :=
  (∃ length : Nat, length ≤ string.length ∧ status = length ∧ terminalId.toNat < 16 ∧
    moved = terminalSwitch terminalId ++ string.take length ++ terminalSwitch activeTerminal ∧
      (flags &&& rttModeMask ≠ rttModeNoBlockTrim → length = string.length)) ∨
  status ≤ 0 ∧ moved = [] ∧
    (terminalId.toNat < 16 → flags &&& rttModeMask ≠ rttModeBlockIfFifoFull)

theorem writes_terminalOut {post : Int → Sender Byte → Prop} {flags : Word} {rounds : Nat}
    {activeTerminal terminalId : Byte} {string : List Byte}
    (belowBack : sender.back < sizeOfBuffer.toNat) (short : string.length < 2 ^ 31)
    (blocks : flags &&& rttModeMask = rttModeBlockIfFifoFull → waits)
    (enough : waits ∨ 2 ≤ rounds)
    (later : ∀ status (after : Sender Byte) moved, after.sent = sender.sent ++ moved →
      PutOut flags activeTerminal terminalId string status moved → post status after) :
    Writes sizeOfBuffer.toNat waits post
      (terminalOut sizeOfBuffer flags rounds activeTerminal terminalId string) sender := by
  have fragLen : (BitVec.ofNat 32 string.length).toNat = string.length := by
    rw [BitVec.toNat_ofNat]
    omega
  have isInt : ∀ numBytes : Word, numBytes.toNat ≤ string.length →
      numBytes.toInt = (numBytes.toNat : Int) := by
    intro numBytes inside
    rw [BitVec.toInt_eq_toNat_cond, if_pos (by omega)]
  unfold terminalOut
  by_cases known : terminalId.toNat < aTerminalId.length
  · rw [if_pos known]
    have isKnown : terminalId.toNat < 16 := known
    refine Writes.bind (writes_getAvailWriteSpace belowBack fun avail _ roomy => ?_)
    -- the string, cut or whole, in between two switches
    have shown : ∀ numBytes : Word, numBytes.toNat ≤ string.length →
        (waits ∨ numBytes.toNat + 4 ≤ avail.toNat ∧ 2 ≤ rounds) →
        (flags &&& rttModeMask ≠ rttModeNoBlockTrim → numBytes.toNat = string.length) →
          Writes sizeOfBuffer.toNat waits post
            (writeToTerminal sizeOfBuffer rounds activeTerminal terminalId string numBytes)
            { sender with room := avail.toNat } := by
      intro numBytes inside goes cut
      refine writes_writeToTerminal belowBack inside goes fun after sent => ?_
      refine later _ after _ sent (Or.inl ⟨numBytes.toNat, inside, isInt _ inside, isKnown, rfl, cut⟩)
    have fails : ∀ status : Int, status ≤ 0 →
        flags &&& rttModeMask ≠ rttModeBlockIfFifoFull →
          post status { sender with room := avail.toNat } := by
      intro status failed mode
      exact later _ _ [] (List.append_nil _).symm (Or.inr ⟨failed, rfl, fun _ => mode⟩)
    by_cases skips : flags &&& rttModeMask = rttModeNoBlockSkip
    · rw [if_pos skips]
      by_cases full : avail < BitVec.ofNat 32 string.length + 4
      · rw [if_pos full]
        refine fails 0 (Int.le_refl 0) ?_
        rw [skips]
        decide
      · rw [if_neg full]
        refine shown _ (by omega) (enough.imp_right fun more => ⟨?_, more⟩) fun _ => fragLen
        bv_omega
    rw [if_neg skips]
    by_cases trims : flags &&& rttModeMask = rttModeNoBlockTrim
    · rw [if_pos trims]
      by_cases full : avail < 4
      · rw [if_pos full]
        refine fails (-1) (by decide) ?_
        rw [trims]
        decide
      · rw [if_neg full]
        refine shown _ ?_ (enough.imp_right fun more => ⟨?_, more⟩) fun other => absurd trims other
        · split
          · omega
          · bv_omega
        · split
          · bv_omega
          · bv_omega
    rw [if_neg trims]
    by_cases mode : flags &&& rttModeMask = rttModeBlockIfFifoFull
    · rw [if_pos mode]
      exact shown _ (by omega) (Or.inl (blocks mode)) fun _ => fragLen
    · rw [if_neg mode]
      exact fails (-1) (by decide) mode
  · rw [if_neg known]
    refine later _ _ [] (List.append_nil _).symm (Or.inr ⟨by decide, rfl, ?_⟩)
    intro other
    exact absurd other known

end Writer

section Reader

variable {sizeOfBuffer : Word} {waits : Prop} {receiver : Receiver Byte}

theorem reads_rdOff {post : Word → Receiver Byte → Prop}
    (below : receiver.front < sizeOfBuffer.toNat)
    (later : ∀ offset : Word, offset.toNat = receiver.front → post offset receiver) :
    Reads sizeOfBuffer.toNat waits post rdOff receiver := by
  apply later
  rw [BitVec.toNat_ofNat]
  omega

theorem reads_wrOff {post : Word → Receiver Byte → Prop}
    (later : ∀ offset : Word, offset.toNat < sizeOfBuffer.toNat → ∀ elements : List Byte,
      elements.length = count sizeOfBuffer.toNat receiver.front offset.toNat →
      receiver.elements <+: elements → post offset { receiver with elements := elements }) :
    Reads sizeOfBuffer.toNat waits post wrOff receiver := by
  intro back below elements length known
  have same : (BitVec.ofNat 32 back).toNat = back := by
    rw [BitVec.toNat_ofNat]
    omega
  have found := later (BitVec.ofNat 32 back)
  rw [same] at found
  exact found below elements length known

theorem reads_memcpyFrom {post : List Byte → Receiver Byte → Prop} {offset : Word}
    (first : Nat) {numBytes : Nat} (below : receiver.front < sizeOfBuffer.toNat)
    (starts : 0 < numBytes → offset.toNat = place sizeOfBuffer.toNat receiver.front first)
    (inside : first + numBytes ≤ receiver.elements.length)
    (fewer : receiver.elements.length < sizeOfBuffer.toNat)
    (ends : offset.toNat + numBytes ≤ sizeOfBuffer.toNat)
    (later : post ((receiver.elements.drop first).take numBytes) receiver) :
    Reads sizeOfBuffer.toNat waits post (memcpyFrom offset numBytes) receiver := by
  induction numBytes generalizing offset first post with
  | zero => exact later
  | succ numBytes ih =>
      have here := starts (Nat.succ_pos _)
      refine ⟨first, by omega, here, ?_⟩
      change Reads _ _ post (memcpyFrom (offset + 1) numBytes >>= fun rest =>
        pure (receiver.elements[first] :: rest)) receiver
      refine Reads.bind (ih (first + 1) ?_ (by omega) ?_ ?_)
      · intro more
        have next : (offset + 1).toNat = offset.toNat + 1 := by bv_omega
        rw [next, ← place_place below (by omega), ← here, place, if_pos (by omega)]
      · have next : (offset + 1).toNat ≤ offset.toNat + 1 := by
          rw [BitVec.toNat_add]
          exact Nat.mod_le _ _
        omega
      · have split : receiver.elements.drop first =
            receiver.elements[first] :: receiver.elements.drop (first + 1) :=
          List.drop_eq_getElem_cons (by omega)
        rw [split, List.take_succ_cons] at later
        exact later

/-- What a read hands over: as many bytes as it tells, at most so many as it was asked for. -/
def Taken (bufferSize : Word) (result : Word × List Byte) (moved : List Byte) : Prop :=
  result.2 = moved ∧ result.1.toNat = moved.length ∧ moved.length ≤ bufferSize.toNat

theorem reads_readToEnd {post : Word × Word × List Byte → Receiver Byte → Prop}
    {readOffset offset bufferSize : Word} (below : receiver.front < sizeOfBuffer.toNat)
    (atFront : readOffset.toNat = receiver.front) (belowBack : offset.toNat < sizeOfBuffer.toNat)
    (length : receiver.elements.length = count sizeOfBuffer.toNat receiver.front offset.toNat)
    (later : ∀ next numBytesRead : Word,
      next.toNat = place sizeOfBuffer.toNat receiver.front numBytesRead.toNat →
      numBytesRead.toNat ≤ bufferSize.toNat →
      (next.toNat ≤ offset.toNat ∧
          numBytesRead.toNat + (offset.toNat - next.toNat) = receiver.elements.length ∨
        numBytesRead = bufferSize ∧ bufferSize.toNat ≤ receiver.elements.length) →
        post (next, numBytesRead, receiver.elements.take numBytesRead.toNat) receiver) :
    Reads sizeOfBuffer.toNat waits post (readToEnd sizeOfBuffer readOffset offset bufferSize)
      receiver := by
  have bound := count_lt below belowBack
  have belowOffset : readOffset.toNat < sizeOfBuffer.toNat := by omega
  unfold readToEnd
  by_cases wraps : readOffset > offset
  · rw [if_pos wraps]
    have behind : offset.toNat < readOffset.toNat := wraps
    obtain ⟨chunk, chunkIs⟩ :
        ∃ chunk, minWord (sizeOfBuffer - readOffset) bufferSize = chunk := ⟨_, rfl⟩
    have untilEnd : (sizeOfBuffer - readOffset).toNat = sizeOfBuffer.toNat - receiver.front := by
      rw [toNat_untilEnd belowOffset, atFront]
    have size_eq : chunk.toNat = min (sizeOfBuffer.toNat - receiver.front) bufferSize.toNat := by
      rw [← chunkIs, toNat_minWord, untilEnd]
    have counted : count sizeOfBuffer.toNat receiver.front offset.toNat =
        offset.toNat + sizeOfBuffer.toNat - receiver.front := by
      rw [count, if_neg (by omega)]
    have small := sizeOfBuffer.isLt
    have summed : (readOffset + chunk).toNat = readOffset.toNat + chunk.toNat :=
      toNat_sum (by omega)
    have atEnd : readOffset + chunk = sizeOfBuffer ↔
        receiver.front + chunk.toNat = sizeOfBuffer.toNat := by
      rw [← BitVec.toNat_inj, summed, atFront]
    simp only [chunkIs]
    refine Reads.bind (reads_memcpyFrom 0 below ?_ (by omega) (by omega) (by omega) ?_)
    · intro _
      rw [atFront, place_zero below]
    · rw [List.drop_zero]
      apply later
      · rw [place]
        by_cases ends : readOffset + chunk = sizeOfBuffer
        · have isEnd := atEnd.mp ends
          rw [if_pos ends, if_neg (by omega), toNat_zero]
          omega
        · have before := mt atEnd.mpr ends
          rw [if_neg ends, if_pos (by omega), summed, atFront]
      · omega
      · by_cases ends : readOffset + chunk = sizeOfBuffer
        · have isEnd := atEnd.mp ends
          rw [if_pos ends, toNat_zero]
          left
          omega
        · have before := mt atEnd.mpr ends
          have isAll : chunk.toNat = bufferSize.toNat := by omega
          exact .inr ⟨BitVec.eq_of_toNat_eq isAll, by omega⟩
  · rw [if_neg wraps]
    have order : readOffset.toNat ≤ offset.toNat := Nat.le_of_not_lt wraps
    have counted : count sizeOfBuffer.toNat receiver.front offset.toNat =
        offset.toNat - receiver.front := by
      rw [count, if_pos (by omega)]
    have found := later readOffset 0
    rw [toNat_zero, List.take_zero] at found
    apply found
    · rw [atFront, place_zero below]
    · exact Nat.zero_le _
    · left
      omega

theorem reads_readRemaining {post : Word × Word × List Byte → Receiver Byte → Prop}
    {next numBytesRead offset bufferSize : Word} (below : receiver.front < sizeOfBuffer.toNat)
    (belowBack : offset.toNat < sizeOfBuffer.toNat)
    (length : receiver.elements.length = count sizeOfBuffer.toNat receiver.front offset.toNat)
    (isNext : next.toNat = place sizeOfBuffer.toNat receiver.front numBytesRead.toNat)
    (fits : numBytesRead.toNat ≤ bufferSize.toNat)
    (rest : next.toNat ≤ offset.toNat ∧
        numBytesRead.toNat + (offset.toNat - next.toNat) = receiver.elements.length ∨
      numBytesRead = bufferSize ∧ bufferSize.toNat ≤ receiver.elements.length)
    (later : ∀ last total : Word,
      last.toNat = place sizeOfBuffer.toNat receiver.front total.toNat →
      total.toNat ≤ receiver.elements.length → total.toNat ≤ bufferSize.toNat →
      (receiver.elements ≠ [] → bufferSize ≠ 0 → 0 < total.toNat) →
      post (last, total, receiver.elements.take total.toNat) receiver) :
    Reads sizeOfBuffer.toNat waits post
      (readRemaining offset bufferSize (next, numBytesRead, receiver.elements.take numBytesRead.toNat))
      receiver := by
  have bound := count_lt below belowBack
  obtain ⟨chunk, chunkIs⟩ :
      ∃ chunk, minWord (offset - next) (bufferSize - numBytesRead) = chunk := ⟨_, rfl⟩
  have left_ := toNat_rest fits
  have size_eq : chunk.toNat = min (offset - next).toNat (bufferSize.toNat - numBytesRead.toNat) := by
    rw [← chunkIs, toNat_minWord, left_]
  have gap : next.toNat ≤ offset.toNat → (offset - next).toNat = offset.toNat - next.toNat :=
    toNat_rest
  have inside : numBytesRead.toNat + chunk.toNat ≤ receiver.elements.length := by
    rcases rest with ⟨order, whole⟩ | ⟨rfl, whole⟩
    · have gap := gap order
      omega
    · omega
  have small := bufferSize.isLt
  have summed : (numBytesRead + chunk).toNat = numBytesRead.toNat + chunk.toNat :=
    toNat_sum (by omega)
  have progress : receiver.elements ≠ [] → bufferSize ≠ 0 → 0 < (numBytesRead + chunk).toNat := by
    intro some_ asked
    have long := List.length_pos_iff.mpr some_
    have positive : bufferSize.toNat ≠ 0 := fun zero => asked (BitVec.eq_of_toNat_eq zero)
    rcases rest with ⟨order, whole⟩ | ⟨rfl, whole⟩
    · have gap := gap order
      omega
    · omega
  have ends : next.toNat + chunk.toNat < sizeOfBuffer.toNat := by
    have belowNext : next.toNat < sizeOfBuffer.toNat := by
      rw [isNext]
      exact place_lt below (by omega)
    rcases rest with ⟨order, whole⟩ | ⟨rfl, whole⟩
    · have gap := gap order
      omega
    · omega
  have lastPlace : (next + chunk).toNat =
      place sizeOfBuffer.toNat receiver.front (numBytesRead + chunk).toNat := by
    have words := sizeOfBuffer.isLt
    rw [summed, ← place_place below (by omega), ← isNext, place, if_pos ends, toNat_sum (by omega)]
  have found := later (next + chunk) (numBytesRead + chunk) lastPlace (by omega) (by omega) progress
  unfold readRemaining
  simp only [chunkIs]
  by_cases some_ : chunk > 0
  · rw [if_pos some_]
    refine Reads.bind ?_
    refine reads_memcpyFrom _ below (fun _ => isNext) inside (by omega) (Nat.le_of_lt ends) ?_
    have joined : receiver.elements.take numBytesRead.toNat ++
        (receiver.elements.drop numBytesRead.toNat).take chunk.toNat =
          receiver.elements.take (numBytesRead + chunk).toNat := by
      rw [summed]
      exact List.take_add.symm
    simp only [joined]
    exact found
  · rw [if_neg some_]
    have zero : chunk = 0#32 := BitVec.eq_of_toNat_eq (Nat.le_zero.mp (Nat.le_of_not_lt some_))
    rw [zero, BitVec.add_zero, BitVec.add_zero] at found
    exact found

theorem reads_readNoLock {post : Word × List Byte → Receiver Byte → Prop} {bufferSize : Word}
    (below : receiver.front < sizeOfBuffer.toNat)
    (later : ∀ result (after : Receiver Byte) moved, after.front < sizeOfBuffer.toNat →
      after.received = receiver.received ++ moved → Taken bufferSize result moved →
      (receiver.elements ≠ [] → bufferSize ≠ 0 → moved ≠ []) → post result after) :
    Reads sizeOfBuffer.toNat waits post (readNoLock sizeOfBuffer bufferSize) receiver := by
  refine Reads.bind (reads_rdOff below fun readOffset atFront => ?_)
  refine Reads.bind (reads_wrOff fun offset belowBack elements length known => ?_)
  have bound := count_lt below belowBack
  refine Reads.bind (reads_readToEnd below atFront belowBack length ?_)
  intro next numBytesRead isNext fits rest
  refine Reads.bind (reads_readRemaining below belowBack length isNext fits rest ?_)
  intro last total lastPlace inside fits progress
  change total.toNat ≤ elements.length at inside
  change elements ≠ [] → _ at progress
  have long : (elements.take total.toNat).length = total.toNat := List.length_take_of_le inside
  have taken : Taken bufferSize (total, elements.take total.toNat) (elements.take total.toNat) :=
    ⟨rfl, long.symm, by rw [long]; exact fits⟩
  have more : receiver.elements ≠ [] → bufferSize ≠ 0 → elements.take total.toNat ≠ [] := by
    intro some_ asked
    have grown : elements ≠ [] := by
      rintro rfl
      exact some_ (List.prefix_nil.mp known)
    rw [← List.length_pos_iff, long]
    exact progress grown asked
  -- the offset is stored if something has been read
  by_cases none_ : total ≠ 0
  · simp only [if_pos none_]
    refine ⟨total.toNat, inside, lastPlace, ?_⟩
    refine later _ _ _ ?_ rfl taken more
    rw [lastPlace]
    exact place_lt below (by omega)
  · simp only [if_neg none_]
    refine later _ _ _ below ?_ taken more
    rw [not_not.mp none_, toNat_zero, List.take_zero, List.append_nil]

end Reader

end PicoToolkit.Rtt
