import PicoToolkit.Library.Ehabi
import PicoToolkit.Scheduler.State

/-!
The interpreter of the fault handler for unwind instructions.  The words of a table hold the bytes of the
instructions, the most significant byte first; the stack is read a word at a time.
-/

namespace PicoToolkit.Fault

/-- `unwind_control_block_t`; the instructions are those of a table, from an index on. -/
structure Ucb where
  vrs : Nat → Word
  current : Nat
  remaining : Nat
  byte : Nat

structure Frame where
  fp : Word
  sp : Word
  lr : Word
  pc : Word

def uint32Max : Word := 0xffffffff

structure Memories where
  table : Nat → Word
  stack : Word → Word

variable (memories : Memories)

def unwindGetNextByte (ucb : Ucb) : Word × Ucb :=
  if ucb.remaining = 0 then (uint32Max, ucb)
  else
    let instruction := (memories.table ucb.current >>> (8 * ucb.byte)) &&& 0xff
    let moved :=
      if ucb.byte = 0 then { ucb with current := ucb.current + 1, byte := 3 }
      else { ucb with byte := ucb.byte - 1 }
    (instruction, { moved with remaining := ucb.remaining - 1 })

def unwindControlBlockInit (instructions : Nat) (frame : Frame) : Option Ucb :=
  let word := memories.table instructions
  let vrs : Nat → Word := fun register =>
    if register = 7 then frame.fp
    else if register = 13 then frame.sp
    else if register = 14 then frame.lr
    else 0
  if word &&& 0xff000000 = 0x80000000 then
    some { vrs := vrs, current := instructions, remaining := 3, byte := 2 }
  else if word &&& 0xff000000 = 0x81000000 then
    some { vrs := vrs, current := instructions
           remaining := ((word &&& 0x00ff0000) >>> 14).toNat + 2, byte := 1 }
  else none

/-- The loop that pops registers under a mask: what is left of the mask, and the stack pointer and the
registers. -/
def popUnderMask : Nat → Word → Nat → Word → (Nat → Word) → Word × Word × (Nat → Word)
  | 0, mask, _, vsp, vrs => (mask, vsp, vrs)
  | fuel + 1, mask, reg, vsp, vrs =>
      if mask = 0 then (mask, vsp, vrs)
      else if mask &&& 1 ≠ 0 then
        popUnderMask fuel (mask >>> 1) (reg + 1) (vsp + 4)
          (Function.update vrs reg (memories.stack vsp))
      else popUnderMask fuel (mask >>> 1) (reg + 1) vsp vrs

def popFrom : Nat → Nat → Word → (Nat → Word) → Word × (Nat → Word)
  | 0, _, vsp, vrs => (vsp, vrs)
  | count + 1, reg, vsp, vrs =>
      popFrom count (reg + 1) (vsp + 4) (Function.update vrs reg (memories.stack vsp))

def Ucb.setReg (ucb : Ucb) (reg : Nat) (value : Word) : Ucb :=
  { ucb with vrs := Function.update ucb.vrs reg value }

/-- What the loop of `unwind_execute_instruction` does with an instruction byte: it goes on, or the
function returns. -/
def executeByte (instruction : Word) (ucb : Ucb) : Ucb ⊕ (Int × Ucb) :=
  if instruction &&& 0xc0 = 0x00 then
    .inl (ucb.setReg 13 (ucb.vrs 13 + (((instruction &&& 0x3f) <<< 2) + 4)))
  else if instruction &&& 0xc0 = 0x40 then
    .inl (ucb.setReg 13 (ucb.vrs 13 - (((instruction &&& 0x3f) <<< 2) + 4)))
  else if instruction &&& 0xf0 = 0x80 then
    let (byte, ucb) := unwindGetNextByte memories ucb
    let instruction := instruction <<< 8 ||| byte
    if instruction = 0x8000 then .inr (0, ucb)
    else
      let (mask, vsp, vrs) := popUnderMask memories 32 (instruction &&& 0xfff) 4 (ucb.vrs 13) ucb.vrs
      let ucb := { ucb with vrs := vrs }
      -- the loop has used up the mask
      .inl (if mask &&& ((1 : Word) <<< (13 - 4)) = 0 then ucb.setReg 13 vsp else ucb)
  else if instruction &&& 0xf0 = 0x90 ∧ instruction ≠ 0x9d ∧ instruction ≠ 0x9f then
    .inl (ucb.setReg 13 (ucb.vrs (instruction &&& 0x0f).toNat))
  else if instruction &&& 0xf0 = 0xa0 then
    let (vsp, vrs) := popFrom memories ((instruction &&& 0x07).toNat + 1) 4 (ucb.vrs 13) ucb.vrs
    let (vsp, vrs) :=
      if instruction &&& 0x08 ≠ 0 then (vsp + 4, Function.update vrs 14 (memories.stack vsp))
      else (vsp, vrs)
    .inl ({ ucb with vrs := vrs }.setReg 13 vsp)
  else if instruction = 0xb0 then
    .inr (0, if ucb.vrs 15 = 0 then ucb.setReg 15 (ucb.vrs 14) else ucb)
  else if instruction = 0xb1 then
    let (mask, ucb) := unwindGetNextByte memories ucb
    let (_, vsp, vrs) := popUnderMask memories 32 mask 0 (ucb.vrs 13) ucb.vrs
    .inl ({ ucb with vrs := vrs }.setReg 13 vsp)
  else if instruction = 0xb2 then
    let (byte, ucb) := unwindGetNextByte memories ucb
    .inl (ucb.setReg 13 (ucb.vrs 13 + ((0x204 : Word) + (byte <<< 2))))
  else if instruction = 0xb3 ∨ instruction = 0xc8 ∨ instruction = 0xc9 then
    let (byte, ucb) := unwindGetNextByte memories ucb
    let vsp := ucb.vrs 13 + (8 : Word) * ((byte &&& 0x0f) + 1)
    .inl (ucb.setReg 13 (if instruction = 0xb3 then vsp + 4 else vsp))
  else if instruction &&& 0xf8 = 0xb8 ∨ instruction &&& 0xf8 = 0xd0 then
    let vsp := ucb.vrs 13 + (8 : Word) * ((instruction &&& 0x07) + 1)
    .inl (ucb.setReg 13 (if instruction &&& 0xf8 = 0xb8 then vsp + 4 else vsp))
  else .inr (-1, ucb)

def unwindExecuteInstruction : Nat → Ucb → Option (Int × Ucb)
  | 0, _ => none
  | fuel + 1, ucb =>
      let (instruction, ucb) := unwindGetNextByte memories ucb
      if instruction = uint32Max then some (0, ucb)
      else
        match executeByte memories instruction ucb with
        | .inl ucb => unwindExecuteInstruction fuel ucb
        | .inr returned => some returned

/-- The line of `unwind_frame` after the instructions: the virtual pc becomes the virtual lr if nothing
has set it. -/
def settlePc (vrs : Nat → Word) : Nat → Word :=
  if vrs 15 = 0 then Function.update vrs 15 (vrs 14) else vrs

def instructionBytes (table : Nat → Word) : Nat → Nat → Nat → List Ehabi.Byte
  | 0, _, _ => []
  | remaining + 1, current, byte =>
      ((table current >>> (8 * byte)).setWidth 8) ::
        if byte = 0 then instructionBytes table remaining (current + 1) 3
        else instructionBytes table remaining current (byte - 1)

def Ucb.bytes (ucb : Ucb) (table : Nat → Word) : List Ehabi.Byte :=
  instructionBytes table ucb.remaining ucb.current ucb.byte

section Bytes

variable {memories}

theorem bytes_length {table : Nat → Word} (remaining current byte : Nat) :
    (instructionBytes table remaining current byte).length = remaining := by
  induction remaining generalizing current byte with
  | zero => rfl
  | succ remaining ih =>
      rw [instructionBytes, List.length_cons]
      split <;> rw [ih]

theorem bytes_length_lt (ucb : Ucb) (table : Nat → Word) : (ucb.bytes table).length < ucb.remaining + 1 := by
  rw [Ucb.bytes, bytes_length]
  exact Nat.lt_succ_self _

theorem unwindGetNextByte_nil {ucb : Ucb} (empty : ucb.bytes memories.table = []) :
    unwindGetNextByte memories ucb = (uint32Max, ucb) := by
  have none : ucb.remaining = 0 := by
    have length := congrArg List.length empty
    rwa [Ucb.bytes, bytes_length] at length
  rw [unwindGetNextByte, if_pos none]

theorem unwindGetNextByte_cons {ucb : Ucb} {first : Ehabi.Byte} {rest : List Ehabi.Byte}
    (bytes : ucb.bytes memories.table = first :: rest) :
    ∃ next, unwindGetNextByte memories ucb = (first.setWidth 32, next) ∧ next.vrs = ucb.vrs ∧
      next.bytes memories.table = rest ∧ next.remaining + 1 = ucb.remaining := by
  obtain ⟨vrs, current, remaining, byte⟩ := ucb
  cases remaining with
  | zero => cases bytes
  | succ remaining =>
      rw [Ucb.bytes, instructionBytes, List.cons.injEq] at bytes
      obtain ⟨rfl, later⟩ := bytes
      have low : (memories.table current >>> (8 * byte)) &&& 0xff =
          ((memories.table current >>> (8 * byte)).setWidth 8).setWidth 32 := by
        have masked := Ehabi.and_byte (memories.table current >>> (8 * byte)) 0
        simpa [Ehabi.byteAt_eq] using masked
      rw [unwindGetNextByte, if_neg (Nat.succ_ne_zero remaining), low]
      by_cases zero : byte = 0
      · rw [if_pos zero] at later
        exact ⟨_, rfl, by simp [zero], by simp [zero, Ucb.bytes, later], by simp⟩
      · rw [if_neg zero] at later
        exact ⟨_, rfl, by simp [zero], by simp [zero, Ucb.bytes, later], by simp⟩

def wordBytes (word : Word) : List Ehabi.Byte :=
  [24, 16, 8, 0].map fun shift => (word >>> shift).setWidth 8

theorem instructionBytes_words {table : Nat → Word} (count current : Nat) :
    instructionBytes table (4 * count) current 3 =
      (List.range' current count).flatMap fun index => wordBytes (table index) := by
  induction count generalizing current with
  | zero => rfl
  | succ count ih =>
      rw [List.range'_succ, List.flatMap_cons, ← ih, Nat.mul_succ]
      simp [instructionBytes, wordBytes]

theorem longDescription_words (word : Word) :
    ((word &&& 0x00ff0000) >>> 14).toNat = 4 * ((word >>> 16).setWidth 8 : Ehabi.Byte).toNat := by
  have masked : word &&& (0x00ff0000 : Word) =
      (((word >>> 16).setWidth 8 : Ehabi.Byte).setWidth 32) <<< 16 := by
    rw [← Ehabi.byteAt_eq word 2]
    exact Ehabi.and_byte word 2
  have small := ((word >>> 16).setWidth 8 : Ehabi.Byte).isLt
  rw [masked, BitVec.toNat_ushiftRight, BitVec.toNat_shiftLeft, BitVec.toNat_setWidth,
    Nat.shiftLeft_eq, Nat.shiftRight_eq_div_pow]
  omega

/-- The bytes to execute: the three lower ones of the word of a short description; the two lower ones of
the first word of a long description, and its further words. -/
theorem unwindControlBlockInit_bytes {instructions : Nat} {frame : Frame} {ucb : Ucb}
    (init : unwindControlBlockInit memories instructions frame = some ucb) :
    let word := memories.table instructions
    (word &&& 0xff000000 = 0x80000000 ∧ ucb.bytes memories.table = (wordBytes word).drop 1) ∨
      (word &&& 0xff000000 = 0x81000000 ∧ ucb.bytes memories.table = (wordBytes word).drop 2 ++
        (List.range' (instructions + 1) ((word >>> 16).setWidth 8 : Ehabi.Byte).toNat).flatMap
          fun index => wordBytes (memories.table index)) := by
  intro word
  simp only [unwindControlBlockInit] at init
  split at init
  · rename_i short
    cases init
    exact .inl ⟨short, rfl⟩
  · split at init
    · rename_i long
      cases init
      refine .inr ⟨long, ?_⟩
      rw [Ucb.bytes, longDescription_words, ← instructionBytes_words]
      simp [instructionBytes, wordBytes, word]
    · cases init

end Bytes

end PicoToolkit.Fault
