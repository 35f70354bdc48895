import PicoToolkit.Fault.Unwinder

/-!
The bytes of an unwind description as `unwind_get_next_byte` returns them one after the other, and the
words of the table that are read for them.
-/

namespace PicoToolkit.Fault

variable (memories : Memories)

/-- What so many calls of `unwind_get_next_byte` return. -/
def nextBytes : Nat → Ucb → List Word
  | 0, _ => []
  | count + 1, ucb =>
      let (byte, next) := unwindGetNextByte memories ucb
      byte :: nextBytes count next

def Ucb.wordRead (ucb : Ucb) : Option Nat :=
  if ucb.remaining = 0 then none else some ucb.current

def wordsRead : Nat → Ucb → List Nat
  | 0, _ => []
  | count + 1, ucb => ucb.wordRead.toList ++ wordsRead count (unwindGetNextByte memories ucb).2

/-- The place of the next byte in the table, whose words have their most significant byte first. -/
def Ucb.place (ucb : Ucb) : Nat := 4 * ucb.current + 3 - ucb.byte

section Answers

variable {memories}

theorem nextBytes_eq (count : Nat) (ucb : Ucb) :
    nextBytes memories count ucb =
      ((ucb.bytes memories.table).map fun byte => byte.setWidth 32).take count ++
        List.replicate (count - ucb.remaining) uint32Max := by
  induction count generalizing ucb with
  | zero => simp [nextBytes]
  | succ count ih =>
      cases bytes : ucb.bytes memories.table with
      | nil =>
          have none : ucb.remaining = 0 := by
            have length := congrArg List.length bytes
            rwa [Ucb.bytes, bytes_length] at length
          simp only [nextBytes, unwindGetNextByte_nil bytes]
          rw [ih, bytes, none]
          simp [List.replicate_succ]
      | cons first rest =>
          obtain ⟨next, step, _, later, fewer⟩ := unwindGetNextByte_cons bytes
          simp only [nextBytes, step]
          rw [ih, later, ← fewer]
          simp

end Answers

section Reads

variable {memories} {ucb : Ucb}

theorem place_add_byte (inside : ucb.byte ≤ 3) : ucb.place + ucb.byte = 4 * ucb.current + 3 := by
  rw [Ucb.place]
  omega

theorem unwindGetNextByte_place (inside : ucb.byte ≤ 3) (more : ucb.remaining ≠ 0) :
    let next := (unwindGetNextByte memories ucb).2
    next.byte ≤ 3 ∧ next.place = ucb.place + 1 ∧ next.remaining + 1 = ucb.remaining := by
  rw [unwindGetNextByte, if_neg more]
  by_cases last : ucb.byte = 0
  · simp only [if_pos last, Ucb.place]
    omega
  · simp only [if_neg last, Ucb.place]
    omega

theorem unwindGetNextByte_congr {other : Memories}
    (same : ∀ index ∈ ucb.wordRead, other.table index = memories.table index) :
    unwindGetNextByte other ucb = unwindGetNextByte memories ucb := by
  by_cases none : ucb.remaining = 0
  · rw [unwindGetNextByte, unwindGetNextByte, if_pos none, if_pos none]
  · have read : other.table ucb.current = memories.table ucb.current :=
      same _ (by simp [Ucb.wordRead, none])
    simp only [unwindGetNextByte, read]

theorem nextBytes_congr {other : Memories} (count : Nat)
    (same : ∀ index ∈ wordsRead memories count ucb, other.table index = memories.table index) :
    nextBytes other count ucb = nextBytes memories count ucb := by
  induction count generalizing ucb with
  | zero => rfl
  | succ count ih =>
      have step : unwindGetNextByte other ucb = unwindGetNextByte memories ucb :=
        unwindGetNextByte_congr fun index read =>
          same index (List.mem_append_left _ (Option.mem_toList.mpr read))
      simp only [nextBytes, step]
      rw [ih fun index read => same index (List.mem_append_right _ read)]

theorem wordsRead_inside {count index : Nat} (inside : ucb.byte ≤ 3)
    (read : index ∈ wordsRead memories count ucb) :
    ucb.current ≤ index ∧ 4 * index < ucb.place + ucb.remaining := by
  induction count generalizing ucb with
  | zero => cases read
  | succ count ih =>
      have bound := place_add_byte inside
      by_cases none : ucb.remaining = 0
      · have stays : (unwindGetNextByte memories ucb).2 = ucb := by rw [unwindGetNextByte, if_pos none]
        simp only [wordsRead, Ucb.wordRead, if_pos none, stays] at read
        exact ih inside read
      · obtain ⟨nextInside, moved, fewer⟩ := @unwindGetNextByte_place memories ucb inside none
        simp only [wordsRead, Ucb.wordRead, if_neg none, Option.toList_some, List.singleton_append,
          List.mem_cons] at read
        rcases read with rfl | later
        · omega
        · have behind := ih nextInside later
          have nextBound := place_add_byte nextInside
          omega

end Reads

section Descriptions

variable {memories} {instructions words : Nat} {bytes : List Ehabi.Byte}

theorem toInt_setWidth_byte (byte : Ehabi.Byte) : (byte.setWidth 32).toInt = byte.toNat := by
  have small := byte.isLt
  have value : (byte.setWidth 32).toNat = byte.toNat := by
    rw [BitVec.toNat_setWidth]
    exact Nat.mod_eq_of_lt (by omega)
  rw [BitVec.toInt_eq_toNat_of_lt (by omega), value]

theorem bigEndian_eq (word : Word) : Ehabi.bigEndian word = wordBytes word := by
  simp [Ehabi.bigEndian, wordBytes, Ehabi.byteAt_eq]

theorem furtherBytes_eq (further : Nat) :
    ((List.range' 1 further).flatMap fun index =>
        Ehabi.bigEndian (memories.table (instructions + index))) =
      (List.range' (instructions + 1) further).flatMap fun index =>
        wordBytes (memories.table index) := by
  rw [← List.map_add_range' (a := instructions), List.flatMap_map]
  simp only [bigEndian_eq]

theorem isShort_iff {word : Word} :
    word &&& 0xff000000 = 0x80000000 ↔ Ehabi.byteAt word 3 = 0x80 := by
  rw [show (0x80000000 : Word) = ((0x80 : Ehabi.Byte).setWidth 32) <<< 24 by decide]
  exact Ehabi.and_top_eq_iff

theorem isLong_iff {word : Word} :
    word &&& 0xff000000 = 0x81000000 ↔ Ehabi.byteAt word 3 = 0x81 := by
  rw [show (0x81000000 : Word) = ((0x81 : Ehabi.Byte).setWidth 32) <<< 24 by decide]
  exact Ehabi.and_top_eq_iff

/-- The reader starts at the first byte of a description, and ends behind the last word of it. -/
theorem unwindControlBlockInit_described (frame : Frame)
    (described : Ehabi.description (fun index => memories.table (instructions + index)) =
      some (bytes, words)) :
    ∃ ucb, unwindControlBlockInit memories instructions frame = some ucb ∧
      ucb.bytes memories.table = bytes ∧ ucb.byte ≤ 3 ∧ ucb.current = instructions ∧
      ucb.place + ucb.remaining = 4 * (instructions + words) := by
  simp only [Ehabi.description, Nat.add_zero] at described
  by_cases short : Ehabi.byteAt (memories.table instructions) 3 = 0x80
  · have top := isShort_iff.mpr short
    rw [if_pos short] at described
    cases described
    have init := unwindControlBlockInit.eq_1 memories instructions frame
    simp only [if_pos top] at init
    refine ⟨_, init, ?_, by simp, rfl, ?_⟩
    · rw [bigEndian_eq]
      rcases unwindControlBlockInit_bytes init with ⟨_, read⟩ | ⟨long, _⟩
      · exact read
      · rw [top] at long
        cases long
    · simp only [Ucb.place]
      omega
  rw [if_neg short] at described
  by_cases long : Ehabi.byteAt (memories.table instructions) 3 = 0x81
  · have top := isLong_iff.mpr long
    have other := mt isShort_iff.mp short
    rw [if_pos long] at described
    cases described
    have init := unwindControlBlockInit.eq_1 memories instructions frame
    simp only [if_neg other, if_pos top] at init
    refine ⟨_, init, ?_, by simp, rfl, ?_⟩
    · rw [bigEndian_eq, furtherBytes_eq]
      rcases unwindControlBlockInit_bytes init with ⟨same, _⟩ | ⟨_, read⟩
      · exact absurd same other
      · rw [Ehabi.byteAt_eq]
        exact read
    · simp only [Ucb.place, longDescription_words, ← Ehabi.byteAt_eq _ 2]
      omega
  · rw [if_neg long] at described
    cases described

/-- The calls return the bytes of the instructions in a description, and then -1 for ever; they read the
words of the description only, and depend on no other ones. -/
theorem description_read (frame : Frame)
    (described : Ehabi.description (fun index => memories.table (instructions + index)) =
      some (bytes, words)) :
    ∃ ucb, unwindControlBlockInit memories instructions frame = some ucb ∧
      (∀ count, (nextBytes memories count ucb).map BitVec.toInt =
        (bytes.map fun byte => (byte.toNat : Int)).take count ++
          List.replicate (count - bytes.length) (-1)) ∧
      (∀ count, ∀ index ∈ wordsRead memories count ucb,
        instructions ≤ index ∧ index < instructions + words) ∧
      ∀ other : Memories,
        (∀ index, instructions ≤ index → index < instructions + words →
          other.table index = memories.table index) →
        unwindControlBlockInit other instructions frame = some ucb ∧
          ∀ count, nextBytes other count ucb = nextBytes memories count ucb := by
  obtain ⟨ucb, init, left, inside, first, last⟩ := unwindControlBlockInit_described frame described
  have length : ucb.remaining = bytes.length := by rw [← left, Ucb.bytes, bytes_length]
  have within : ∀ count, ∀ index ∈ wordsRead memories count ucb,
      instructions ≤ index ∧ index < instructions + words := by
    intro count index read
    have bounds := wordsRead_inside inside read
    omega
  refine ⟨ucb, init, fun count => ?_, within, fun other same => ⟨?_, fun count => ?_⟩⟩
  · rw [nextBytes_eq, left, length, List.map_append, List.map_take, List.map_map,
      List.map_replicate]
    have minusOne : uint32Max.toInt = -1 := by decide
    rw [minusOne]
    congr 2
    refine List.map_congr_left fun byte _ => ?_
    exact toInt_setWidth_byte byte
  · have here : other.table instructions = memories.table instructions := by
      refine same instructions (Nat.le_refl _) ?_
      rcases Ehabi.description_length described with ⟨rfl, _⟩ | ⟨further, rfl, _⟩
      · exact Nat.lt_succ_self instructions
      · omega
    rw [← init]
    simp only [unwindControlBlockInit, here]
  · refine nextBytes_congr count fun index read => ?_
    exact same index (within count index read).1 (within count index read).2

theorem description_read_long :
    let memories : Memories :=
      { table := fun index => if index = 4 then 0x8101b240 else 0x0884b0b0, stack := fun _ => 0 }
    ∃ ucb, unwindControlBlockInit memories 4 { fp := 0, sp := 0, lr := 0, pc := 0 } = some ucb ∧
      (nextBytes memories 8 ucb).map BitVec.toInt =
        [0xb2, 0x40, 0x08, 0x84, 0xb0, 0xb0, -1, -1] ∧
      ∀ index ∈ wordsRead memories 8 ucb, 4 ≤ index ∧ index < 6 := by
  intro memories
  have described : Ehabi.description (fun index => memories.table (4 + index)) =
      some ([0xb2, 0x40, 0x08, 0x84, 0xb0, 0xb0], 2) := by decide
  obtain ⟨ucb, init, answers, within, _⟩ :=
    description_read { fp := 0, sp := 0, lr := 0, pc := 0 } described
  refine ⟨ucb, init, ?_, within 8⟩
  rw [answers 8]
  decide

end Descriptions

end PicoToolkit.Fault
