import Mathlib.Data.BitVec
import Mathlib.Logic.Function.Basic

/-!
The unwinding bytecode of the ARM exception handling ABI, for the integer registers and the pops of VFP
registers: its instructions, their encodings and their meaning.
-/

namespace Ehabi

abbrev Word : Type := BitVec 32

abbrev Byte : Type := BitVec 8

def byteAt (word : Word) (place : Nat) : Byte := BitVec.ofNat 8 (word.toNat / 256 ^ place)

def bigEndian (word : Word) : List Byte :=
  [byteAt word 3, byteAt word 2, byteAt word 1, byteAt word 0]

/-- The bytes of the instructions in a description in the short form or in the long one, whose second
byte announces further words; with them the number of words that the description takes. -/
def description (words : Nat → Word) : Option (List Byte × Nat) :=
  if byteAt (words 0) 3 = 0x80 then some ((bigEndian (words 0)).drop 1, 1)
  else if byteAt (words 0) 3 = 0x81 then
    let further := (byteAt (words 0) 2).toNat
    some ((bigEndian (words 0)).drop 2 ++
      (List.range' 1 further).flatMap fun index => bigEndian (words index), 1 + further)
  else none

inductive Instruction where
  /-- `vsp = vsp + (x << 2) + 4` -/
  | addVsp (x : Nat)
  /-- `vsp = vsp - (x << 2) - 4` -/
  | subVsp (x : Nat)
  | refuse
  /-- Pop r4 to r15 under a mask of twelve bits. -/
  | popMask (mask : BitVec 12)
  /-- `vsp = r[n]` -/
  | setVsp (register : Nat)
  /-- Pop r4 to r[4 + n], and r14 behind them. -/
  | popRange (n : Nat) (link : Bool)
  | finish
  /-- Pop r0 to r3 under a mask of four bits. -/
  | popLow (mask : BitVec 4)
  /-- `vsp = vsp + 0x204 + (uleb128 << 2)`, with the number of bytes of the operand. -/
  | addLong (uleb128 length : Nat)
  /-- Pop double-precision registers, as stored by FSTMFDX with one word more or by VPUSH. -/
  | popVfp (count : Nat) (fstmfdx : Bool)
  deriving DecidableEq

/-- The virtual registers, and whether the program counter has been set among them. -/
structure Registers where
  vrs : Nat → Word
  pcSet : Bool := false

def decodeUleb128 : List Byte → Option (Nat × Nat × List Byte)
  | [] => none
  | first :: rest =>
      if first.toNat < 128 then some (first.toNat, 1, rest)
      else (decodeUleb128 rest).map fun (value, length, rest) =>
        (first.toNat - 128 + 128 * value, length + 1, rest)

/-- The instruction at the start of some bytes, and the bytes behind it; spare encodings are none. -/
def decode : List Byte → Option (Instruction × List Byte)
  | [] => none
  | first :: rest =>
      let low := first.toNat % 16
      if first.toNat < 0x40 then some (.addVsp first.toNat, rest)
      else if first.toNat < 0x80 then some (.subVsp (first.toNat - 0x40), rest)
      else if first.toNat < 0x90 then
        match rest with
        | [] => none
        | second :: rest =>
            let mask := BitVec.ofNat 12 (256 * low + second.toNat)
            some (if mask = 0 then .refuse else .popMask mask, rest)
      else if first.toNat < 0xa0 then
        if low = 13 ∨ low = 15 then none else some (.setVsp low, rest)
      else if first.toNat < 0xb0 then some (.popRange (low % 8) (8 ≤ low), rest)
      else if first.toNat = 0xb0 then some (.finish, rest)
      else if first.toNat = 0xb1 then
        match rest with
        | [] => none
        | second :: rest =>
            if second.toNat = 0 ∨ 16 ≤ second.toNat then none
            else some (.popLow (BitVec.ofNat 4 second.toNat), rest)
      else if first.toNat = 0xb2 then
        (decodeUleb128 rest).map fun (value, length, rest) => (.addLong value length, rest)
      else if first.toNat = 0xb3 ∨ first.toNat = 0xc8 ∨ first.toNat = 0xc9 then
        match rest with
        | [] => none
        | second :: rest => some (.popVfp (second.toNat % 16 + 1) (first.toNat = 0xb3), rest)
      else if 0xb8 ≤ first.toNat ∧ first.toNat < 0xc0 then
        some (.popVfp (first.toNat % 8 + 1) true, rest)
      else if 0xd0 ≤ first.toNat ∧ first.toNat < 0xd8 then
        some (.popVfp (first.toNat % 8 + 1) false, rest)
      else none

inductive Encodes : List Byte → List Instruction → Prop
  | nil : Encodes [] []
  | cons {bytes rest instruction instructions} : decode bytes = some (instruction, rest) →
      Encodes rest instructions → Encodes bytes (instruction :: instructions)

def spare : List Byte → Bool
  | [] => false
  | first :: rest =>
      decide (first.toNat = 0x9d ∨ first.toNat = 0x9f ∨
        (first.toNat = 0xb1 ∧ (rest.take 1).any fun mask => mask.toNat = 0 ∨ 16 ≤ mask.toNat) ∨
        (0xb4 ≤ first.toNat ∧ first.toNat < 0xb8) ∨ (0xc0 ≤ first.toNat ∧ first.toNat < 0xc8) ∨
        (0xca ≤ first.toNat ∧ first.toNat < 0xd0) ∨ 0xd8 ≤ first.toNat)

/-- The instructions come to one that is spare or refuses to unwind; an instruction has a byte at least. -/
def fails : Nat → List Byte → Bool
  | 0, _ => false
  | fuel + 1, bytes =>
      spare bytes ||
        match decode bytes with
        | none | some (.finish, _) => false
        | some (.refuse, _) => true
        | some (_, rest) => fails fuel rest

def popAll (memory : Word → Word) (vsp : Word) (vrs : Nat → Word) : List Nat → Word × (Nat → Word)
  | [] => (vsp, vrs)
  | register :: rest =>
      popAll memory (vsp + 4) (Function.update vrs register (memory vsp)) rest

def masked {width : Nat} (mask : BitVec width) (first : Nat) : List Nat :=
  ((List.range width).filter fun index => mask.getLsbD index).map fun index => first + index

namespace Instruction

variable (memory : Word → Word)

def popped : Instruction → List Nat
  | .popMask mask => masked mask 4
  | .popRange n link => List.range' 4 (n + 1) ++ if link then [14] else []
  | .popLow mask => masked mask 0
  | _ => []

def pop (registers : Registers) (popped : List Nat) : Registers :=
  let (vsp, vrs) := popAll memory (registers.vrs 13) registers.vrs popped
  { vrs := if 13 ∈ popped then vrs else Function.update vrs 13 vsp
    pcSet := registers.pcSet || decide (15 ∈ popped) }

def setSp (registers : Registers) (vsp : Word) : Registers :=
  { registers with vrs := Function.update registers.vrs 13 vsp }

def apply (registers : Registers) : Instruction → Registers
  | .addVsp x => setSp registers (registers.vrs 13 + BitVec.ofNat 32 (4 * x + 4))
  | .subVsp x => setSp registers (registers.vrs 13 - BitVec.ofNat 32 (4 * x + 4))
  | .setVsp register => setSp registers (registers.vrs register)
  | .addLong uleb128 _ =>
      setSp registers (registers.vrs 13 + 0x204 + BitVec.ofNat 32 (4 * uleb128))
  | .popVfp count fstmfdx =>
      setSp registers (registers.vrs 13 + BitVec.ofNat 32 (8 * count + if fstmfdx then 4 else 0))
  | .popMask mask => pop memory registers (popped (.popMask mask))
  | .popRange n link => pop memory registers (popped (.popRange n link))
  | .popLow mask => pop memory registers (popped (.popLow mask))
  | .refuse | .finish => registers

end Instruction

def Registers.finish (registers : Registers) : Nat → Word :=
  if registers.pcSet then registers.vrs
  else Function.update registers.vrs 15 (registers.vrs 14)

/-- The virtual registers after unwinding, unless it is refused; the end of the instructions finishes. -/
def unwind (memory : Word → Word) : List Instruction → Registers → Option (Nat → Word)
  | [], registers => some registers.finish
  | instruction :: rest, registers =>
      match instruction with
      | .finish => some registers.finish
      | .refuse => none
      | instruction => unwind memory rest (instruction.apply memory registers)

section Description

theorem byteAt_eq (word : Word) (place : Nat) :
    byteAt word place = (word >>> (8 * place)).setWidth 8 := by
  refine BitVec.eq_of_toNat_eq ?_
  rw [byteAt, BitVec.toNat_ofNat, BitVec.toNat_setWidth, BitVec.toNat_ushiftRight,
    Nat.shiftRight_eq_div_pow, Nat.pow_mul]

theorem and_byte (word : Word) (place : Nat) :
    word &&& ((0xff : Word) <<< (8 * place)) = ((byteAt word place).setWidth 32) <<< (8 * place) := by
  have mask : (0xff : Word) = (BitVec.allOnes 8).setWidth 32 := by decide
  refine BitVec.eq_of_getLsbD_eq fun index below => ?_
  rw [mask, byteAt_eq]
  simp only [BitVec.getLsbD_and, BitVec.getLsbD_shiftLeft, BitVec.getLsbD_setWidth,
    BitVec.getLsbD_allOnes, BitVec.getLsbD_ushiftRight]
  by_cases high : 8 * place ≤ index
  · rw [show 8 * place + (index - 8 * place) = index by omega, Bool.and_comm]
    cases decide (index - 8 * place < 8) <;> simp [Bool.and_assoc]
  · simp [Nat.not_le.mp high]

theorem and_top_eq_iff {word : Word} {byte : Byte} :
    word &&& 0xff000000 = (byte.setWidth 32) <<< 24 ↔ byteAt word 3 = byte := by
  have masked : word &&& 0xff000000 = ((byteAt word 3).setWidth 32) <<< 24 := and_byte word 3
  rw [masked]
  constructor
  · intro same
    have values := congrArg BitVec.toNat same
    simp only [BitVec.toNat_shiftLeft, BitVec.toNat_setWidth, Nat.shiftLeft_eq] at values
    refine BitVec.eq_of_toNat_eq ?_
    omega
  · rintro rfl
    rfl

theorem description_length {words : Nat → Word} {bytes : List Byte} {count : Nat}
    (described : description words = some (bytes, count)) :
    (count = 1 ∧ bytes.length = 3) ∨
      ∃ further, count = 1 + further ∧ bytes.length = 2 + 4 * further := by
  rw [description] at described
  split at described
  · cases described
    exact .inl ⟨rfl, rfl⟩
  split at described
  · cases described
    refine .inr ⟨_, rfl, ?_⟩
    simp [bigEndian, Nat.mul_comm]
    omega
  · cases described

end Description

section Decoding

theorem decodeUleb128_length {bytes rest : List Byte} {value length : Nat}
    (decoded : decodeUleb128 bytes = some (value, length, rest)) :
    bytes.length = length + rest.length := by
  induction bytes generalizing value length rest with
  | nil => cases decoded
  | cons first bytes ih =>
      rw [decodeUleb128] at decoded
      split at decoded
      · cases decoded
        simp [Nat.add_comm]
      · obtain ⟨⟨later, count, behind⟩, inner, same⟩ := Option.map_eq_some_iff.mp decoded
        cases same
        have lengths := ih inner
        simp only [List.length_cons]
        omega

theorem decodeUleb128_cons {first : Byte} {bytes rest : List Byte} {value length : Nat}
    (decoded : decodeUleb128 (first :: bytes) = some (value, length, rest)) (single : length = 1) :
    value = first.toNat ∧ rest = bytes := by
  rw [decodeUleb128] at decoded
  split at decoded
  · cases decoded
    exact ⟨rfl, rfl⟩
  · obtain ⟨⟨later, count, behind⟩, inner, same⟩ := Option.map_eq_some_iff.mp decoded
    cases same
    have none : count = 0 := by omega
    subst none
    cases bytes with
    | nil => cases inner
    | cons second bytes =>
        rw [decodeUleb128] at inner
        split at inner
        · cases inner
        · obtain ⟨_, _, same⟩ := Option.map_eq_some_iff.mp inner
          cases same

/-- The ranges of the first byte, each with the instruction and the bytes behind it. -/
inductive Decodes (first : Byte) : List Byte → Instruction → List Byte → Prop
  | addVsp {rest} (upper : first.toNat < 0x40) : Decodes first rest (.addVsp first.toNat) rest
  | subVsp {rest} (lower : 0x40 ≤ first.toNat) (upper : first.toNat < 0x80) :
      Decodes first rest (.subVsp (first.toNat - 0x40)) rest
  | mask {second rest mask} (lower : 0x80 ≤ first.toNat) (upper : first.toNat < 0x90)
      (is : mask = BitVec.ofNat 12 (256 * (first.toNat % 16) + second.toNat)) :
      Decodes first (second :: rest) (if mask = 0 then .refuse else .popMask mask) rest
  | setVsp {rest} (lower : 0x90 ≤ first.toNat) (upper : first.toNat < 0xa0)
      (plain : ¬(first.toNat % 16 = 13 ∨ first.toNat % 16 = 15)) :
      Decodes first rest (.setVsp (first.toNat % 16)) rest
  | popRange {rest} (lower : 0xa0 ≤ first.toNat) (upper : first.toNat < 0xb0) :
      Decodes first rest (.popRange (first.toNat % 16 % 8) (8 ≤ first.toNat % 16)) rest
  | finish {rest} (value : first.toNat = 0xb0) : Decodes first rest .finish rest
  | popLow {second rest} (value : first.toNat = 0xb1) (small : second.toNat < 16) :
      Decodes first (second :: rest) (.popLow (BitVec.ofNat 4 second.toNat)) rest
  | addLong {bytes rest uleb128 length} (value : first.toNat = 0xb2)
      (operand : decodeUleb128 bytes = some (uleb128, length, rest)) :
      Decodes first bytes (.addLong uleb128 length) rest
  | popVfp {second rest}
      (value : first.toNat = 0xb3 ∨ first.toNat = 0xc8 ∨ first.toNat = 0xc9) :
      Decodes first (second :: rest) (.popVfp (second.toNat % 16 + 1) (first.toNat = 0xb3)) rest
  | popVfpShort {rest}
      (value : (0xb8 ≤ first.toNat ∧ first.toNat < 0xc0) ∨ (0xd0 ≤ first.toNat ∧ first.toNat < 0xd8)) :
      Decodes first rest (.popVfp (first.toNat % 8 + 1) (first.toNat < 0xc0)) rest

theorem decodes {first : Byte} {bytes rest : List Byte} {instruction : Instruction}
    (decoded : decode (first :: bytes) = some (instruction, rest)) :
    Decodes first bytes instruction rest := by
  simp only [decode] at decoded
  by_cases upper : first.toNat < 0x40
  · rw [if_pos upper] at decoded
    cases decoded
    exact .addVsp upper
  rw [if_neg upper] at decoded
  have lower := Nat.not_lt.mp upper
  by_cases upper : first.toNat < 0x80
  · rw [if_pos upper] at decoded
    cases decoded
    exact .subVsp lower upper
  rw [if_neg upper] at decoded
  have lower := Nat.not_lt.mp upper
  by_cases upper : first.toNat < 0x90
  · rw [if_pos upper] at decoded
    cases bytes with
    | nil => cases decoded
    | cons second behind =>
        cases decoded
        exact .mask lower upper rfl
  rw [if_neg upper] at decoded
  have lower := Nat.not_lt.mp upper
  by_cases upper : first.toNat < 0xa0
  · rw [if_pos upper] at decoded
    by_cases spare : first.toNat % 16 = 13 ∨ first.toNat % 16 = 15
    · rw [if_pos spare] at decoded
      cases decoded
    · rw [if_neg spare] at decoded
      cases decoded
      exact .setVsp lower upper spare
  rw [if_neg upper] at decoded
  have lower := Nat.not_lt.mp upper
  by_cases upper : first.toNat < 0xb0
  · rw [if_pos upper] at decoded
    cases decoded
    exact .popRange lower upper
  rw [if_neg upper] at decoded
  by_cases value : first.toNat = 0xb0
  · rw [if_pos value] at decoded
    cases decoded
    exact .finish value
  rw [if_neg value] at decoded
  by_cases value : first.toNat = 0xb1
  · rw [if_pos value] at decoded
    cases bytes with
    | nil => cases decoded
    | cons second behind =>
        by_cases spare : second.toNat = 0 ∨ 16 ≤ second.toNat
        · simp [if_pos spare] at decoded
        · simp only [if_neg spare] at decoded
          cases decoded
          exact .popLow value (by omega)
  rw [if_neg value] at decoded
  by_cases value : first.toNat = 0xb2
  · rw [if_pos value] at decoded
    obtain ⟨_, operand, same⟩ := Option.map_eq_some_iff.mp decoded
    cases same
    exact .addLong value operand
  rw [if_neg value] at decoded
  by_cases value : first.toNat = 0xb3 ∨ first.toNat = 0xc8 ∨ first.toNat = 0xc9
  · rw [if_pos value] at decoded
    cases bytes with
    | nil => cases decoded
    | cons second behind =>
        cases decoded
        exact .popVfp value
  rw [if_neg value] at decoded
  by_cases value : 0xb8 ≤ first.toNat ∧ first.toNat < 0xc0
  · rw [if_pos value] at decoded
    cases decoded
    have fstmfdx : true = decide (first.toNat < 0xc0) := (decide_eq_true value.2).symm
    rw [fstmfdx]
    exact .popVfpShort (.inl value)
  rw [if_neg value] at decoded
  by_cases value : 0xd0 ≤ first.toNat ∧ first.toNat < 0xd8
  · rw [if_pos value] at decoded
    cases decoded
    have vpush : false = decide (first.toNat < 0xc0) := (decide_eq_false (by omega)).symm
    rw [vpush]
    exact .popVfpShort (.inr value)
  rw [if_neg value] at decoded
  cases decoded

theorem decode_length {bytes rest : List Byte} {instruction : Instruction}
    (decoded : decode bytes = some (instruction, rest)) : rest.length < bytes.length := by
  cases bytes with
  | nil => cases decoded
  | cons first bytes =>
      cases decodes decoded with
      | addLong value operand =>
          have lengths := decodeUleb128_length operand
          rw [List.length_cons]
          omega
      | _ => simp only [List.length_cons]; omega

theorem decode_spare {bytes : List Byte} (isSpare : spare bytes = true) : decode bytes = none := by
  cases bytes with
  | nil => rfl
  | cons first rest =>
      simp only [spare, decide_eq_true_eq] at isSpare
      rcases isSpare with value | value | ⟨value, masks⟩ | range | range | range | lower
      · simp [decode, value]
      · simp [decode, value]
      · cases rest with
        | nil => cases masks
        | cons mask rest =>
            have outside : mask.toNat = 0 ∨ 16 ≤ mask.toNat := by simpa using masks
            simp [decode, value, outside]
      all_goals
        simp only [decode]
        iterate 11 rw [if_neg (by omega)]

theorem fails_iff {bytes : List Byte} {instructions : List Instruction}
    (encoded : Encodes bytes instructions) {fuel : Nat} (enough : bytes.length ≤ fuel)
    (memory : Word → Word) (registers : Registers) :
    fails fuel bytes = true ↔ unwind memory instructions registers = none := by
  induction encoded generalizing fuel registers with
  | nil =>
      cases fuel with
      | zero => simp [fails, unwind]
      | succ fuel => simp [fails, spare, decode, unwind]
  | @cons bytes rest instruction instructions decoded later ih =>
      have shorter := decode_length decoded
      cases fuel with
      | zero => omega
      | succ fuel =>
          have usual : spare bytes = false := by
            cases isSpare : spare bytes with
            | false => rfl
            | true =>
                rw [decode_spare isSpare] at decoded
                cases decoded
          rw [fails, usual, decoded, Bool.false_or]
          cases instruction with
          | finish => simp [unwind]
          | refuse => simp [unwind]
          | _ => exact ih (by omega) _

end Decoding

section Pops

variable {memory : Word → Word}

theorem popAll_append (vsp : Word) (vrs : Nat → Word) (first second : List Nat) :
    popAll memory vsp vrs (first ++ second) =
      popAll memory (popAll memory vsp vrs first).1 (popAll memory vsp vrs first).2 second := by
  induction first generalizing vsp vrs with
  | nil => rfl
  | cons register rest ih => exact ih _ _

theorem popAll_update {vsp : Word} {vrs : Nat → Word} {registers : List Nat} {register : Nat}
    (outside : register ∉ registers) (value : Word) :
    popAll memory vsp (Function.update vrs register value) registers =
      ((popAll memory vsp vrs registers).1,
        Function.update (popAll memory vsp vrs registers).2 register value) := by
  induction registers generalizing vsp vrs with
  | nil => rfl
  | cons first rest ih =>
      have apart : register ≠ first := fun same => outside (by simp [same])
      rw [popAll, popAll, Function.update_comm apart, ih fun later => outside (List.mem_cons_of_mem _ later)]

theorem masked_eq {width : Nat} (mask : BitVec width) (first : Nat) :
    masked mask first =
      (if mask.getLsbD 0 then [first] else []) ++ masked (mask >>> 1) (first + 1) := by
  cases width with
  | zero => simp [masked]
  | succ width =>
      have shifted : ((List.range (width + 1)).filter fun index => (mask >>> 1).getLsbD index) =
          (List.range width).filter fun index => mask.getLsbD (index + 1) := by
        rw [List.range_succ, List.filter_append]
        simp [Nat.add_comm 1]
      rw [masked, masked, shifted, List.range_succ_eq_map, List.filter_cons, List.filter_map]
      have moved : (fun index => mask.getLsbD index) ∘ Nat.succ = fun index =>
          mask.getLsbD (index + 1) := rfl
      rw [moved]
      cases mask.getLsbD 0 <;>
        simp [List.map_map, Function.comp_def, Nat.add_comm, Nat.add_left_comm]

theorem masked_zero {width : Nat} (first : Nat) : masked (0 : BitVec width) first = [] := by
  simp [masked]

theorem masked_setWidth {width wider : Nat} (fits : width ≤ wider) (mask : BitVec width)
    (first : Nat) : masked (mask.setWidth wider) first = masked mask first := by
  obtain ⟨more, rfl⟩ := Nat.exists_eq_add_of_le fits
  rw [masked, masked, List.range_add, List.filter_append]
  have beyond : ((List.range more).map fun index => width + index).filter
      (fun index => (mask.setWidth (width + more)).getLsbD index) = [] := by
    simp [List.filter_eq_nil_iff]
  have inside : ((List.range width).filter fun index =>
      (mask.setWidth (width + more)).getLsbD index) =
      (List.range width).filter fun index => mask.getLsbD index := by
    refine List.filter_congr fun index below => ?_
    have lower := List.mem_range.mp below
    simp [show index < width + more by omega]
  rw [beyond, inside, List.append_nil]

theorem lt_of_mem_masked {width : Nat} {mask : BitVec width} {first register : Nat}
    (selected : register ∈ masked mask first) : register < first + width := by
  obtain ⟨index, inside, rfl⟩ := List.mem_map.mp selected
  have below := List.mem_range.mp (List.mem_filter.mp inside).1
  omega

theorem sp_not_mem_popRange {n : Nat} {link : Bool} (small : n < 8) :
    13 ∉ Instruction.popped (.popRange n link) := by
  intro within
  rcases List.mem_append.mp within with inside | inside
  · have below := List.mem_range'_1.mp inside
    omega
  · cases link <;> simp at inside

end Pops

end Ehabi
