import PicoToolkit.Fault.Unwinder

/-!
What the interpreter does with the bytes of one instruction after the other, beside what the ABI says
that the instructions mean.
-/

namespace PicoToolkit.Fault

open Ehabi

section Opcodes

/-! The tests of the interpreter tell the ranges of the first byte. -/

variable (byte : Byte)

theorem test_c0_00 : byte.setWidth 32 &&& (0xc0 : Word) = 0x00 ↔ byte.toNat < 0x40 := by
  revert byte
  decide

theorem test_c0_40 :
    byte.setWidth 32 &&& (0xc0 : Word) = 0x40 ↔ 0x40 ≤ byte.toNat ∧ byte.toNat < 0x80 := by
  revert byte
  decide

theorem test_f0_80 :
    byte.setWidth 32 &&& (0xf0 : Word) = 0x80 ↔ 0x80 ≤ byte.toNat ∧ byte.toNat < 0x90 := by
  revert byte
  decide

theorem test_f0_90 :
    byte.setWidth 32 &&& (0xf0 : Word) = 0x90 ↔ 0x90 ≤ byte.toNat ∧ byte.toNat < 0xa0 := by
  revert byte
  decide

theorem test_f0_a0 :
    byte.setWidth 32 &&& (0xf0 : Word) = 0xa0 ↔ 0xa0 ≤ byte.toNat ∧ byte.toNat < 0xb0 := by
  revert byte
  decide

theorem test_f8_b8 :
    byte.setWidth 32 &&& (0xf8 : Word) = 0xb8 ↔ 0xb8 ≤ byte.toNat ∧ byte.toNat < 0xc0 := by
  revert byte
  decide

theorem test_f8_d0 :
    byte.setWidth 32 &&& (0xf8 : Word) = 0xd0 ↔ 0xd0 ≤ byte.toNat ∧ byte.toNat < 0xd8 := by
  revert byte
  decide

theorem test_eq (value : Byte) :
    byte.setWidth 32 = (value.setWidth 32 : Word) ↔ byte.toNat = value.toNat := by
  rw [← BitVec.toNat_inj, BitVec.toNat_setWidth, BitVec.toNat_setWidth]
  have left := byte.isLt
  have right := value.isLt
  omega

theorem setWidth_ne_uint32Max : byte.setWidth 32 ≠ uint32Max := by
  revert byte
  decide

end Opcodes

variable {memories : Memories}

theorem and_one_ne_zero (mask : Word) : mask &&& 1 ≠ 0 ↔ mask.getLsbD 0 = true := by
  have one : (1 : Word) = BitVec.twoPow 32 0 := by decide
  have apart : BitVec.twoPow 32 0 ≠ (0 : Word) := by decide
  rw [one, BitVec.and_twoPow]
  cases mask.getLsbD 0 with
  | false => simp
  | true => simpa using apart

theorem popUnderMask_eq {fuel : Nat} {mask : Word} (small : mask.toNat < 2 ^ fuel) (reg : Nat)
    (vsp : Word) (vrs : Nat → Word) :
    popUnderMask memories fuel mask reg vsp vrs =
      (0, popAll memories.stack vsp vrs (masked mask reg)) := by
  induction fuel generalizing mask reg vsp vrs with
  | zero =>
      have none : mask = 0 := by
        apply BitVec.eq_of_toNat_eq
        simpa using small
      rw [popUnderMask, none, masked_zero, popAll]
  | succ fuel ih =>
      rw [popUnderMask]
      by_cases none : mask = 0
      · rw [if_pos none, none, masked_zero, popAll]
      · have halved : (mask >>> 1).toNat < 2 ^ fuel := by
          rw [BitVec.toNat_ushiftRight, Nat.shiftRight_eq_div_pow]
          omega
        have lowest := and_one_ne_zero mask
        rw [if_neg none, masked_eq]
        by_cases set : mask.getLsbD 0 = true
        · rw [if_pos (lowest.mpr set), if_pos set, ih halved, List.singleton_append, popAll]
        · rw [if_neg (fun meets => set (lowest.mp meets)), if_neg set, ih halved, List.nil_append]

theorem popFrom_eq (count reg : Nat) (vsp : Word) (vrs : Nat → Word) :
    popFrom memories count reg vsp vrs =
      popAll memories.stack vsp vrs (List.range' reg count) := by
  induction count generalizing reg vsp vrs with
  | zero => rfl
  | succ count ih => rw [popFrom, ih, List.range'_succ, popAll]

theorem joined_eq (byte second : Byte) : (byte.setWidth 32 : Word) <<< 8 ||| second.setWidth 32 =
    BitVec.ofNat 32 (256 * byte.toNat + second.toNat) := by
  have bound := byte.isLt
  have shifted : (byte.setWidth 32 : Word) <<< 8 = BitVec.ofNat 32 (256 * byte.toNat) := by
    apply BitVec.eq_of_toNat_eq
    rw [BitVec.toNat_shiftLeft, BitVec.toNat_setWidth, BitVec.toNat_ofNat, Nat.shiftLeft_eq]
    omega
  have apart : (BitVec.ofNat 32 (256 * byte.toNat) : Word) &&& second.setWidth 32 = 0 := by
    rw [← shifted]
    refine BitVec.eq_of_getLsbD_eq fun index below => ?_
    rw [BitVec.getLsbD_and, BitVec.getLsbD_shiftLeft, BitVec.getLsbD_setWidth]
    by_cases low : index < 8
    · simp [low]
    · simp [BitVec.getLsbD_of_ge second index (by omega)]
  rw [shifted, ← BitVec.add_eq_or_of_and_eq_zero _ _ apart]
  apply BitVec.eq_of_toNat_eq
  have small := second.isLt
  rw [BitVec.toNat_add, BitVec.toNat_ofNat, BitVec.toNat_ofNat, BitVec.toNat_setWidth]
  omega

theorem executeByte_mask {byte : Byte} {ucb next : Ucb} {second : Word} (lower : 0x80 ≤ byte.toNat)
    (upper : byte.toNat < 0x90) (read : unwindGetNextByte memories ucb = (second, next)) :
    executeByte memories (byte.setWidth 32) ucb =
      let instruction := (byte.setWidth 32 : Word) <<< 8 ||| second
      if instruction = 0x8000 then .inr (0, next)
      else
        let popped := popAll memories.stack (next.vrs 13) next.vrs (masked (instruction &&& 0xfff) 4)
        .inl ({ next with vrs := popped.2 }.setReg 13 popped.1) := by
  have used : (0 : Word) &&& ((1 : Word) <<< (13 - 4)) = 0 := by decide
  rw [executeByte, if_neg (by rw [test_c0_00]; omega), if_neg (by rw [test_c0_40]; omega),
    if_pos ((test_f0_80 byte).mpr ⟨lower, upper⟩), read]
  simp only [popUnderMask_eq (BitVec.isLt _), if_pos used]

section Bytes

/-! The interpreter on a byte of each range. -/

variable {byte : Byte} {ucb : Ucb}

theorem executeByte_addVsp (upper : byte.toNat < 0x40) :
    executeByte memories (byte.setWidth 32) ucb =
      .inl (ucb.setReg 13 (ucb.vrs 13 + BitVec.ofNat 32 (4 * byte.toNat + 4))) := by
  have value : ((byte.setWidth 32 &&& (0x3f : Word)) <<< 2) + 4 =
      BitVec.ofNat 32 (4 * byte.toNat + 4) := by
    revert byte
    decide
  rw [executeByte, if_pos ((test_c0_00 byte).mpr upper), value]

theorem executeByte_subVsp (lower : 0x40 ≤ byte.toNat) (upper : byte.toNat < 0x80) :
    executeByte memories (byte.setWidth 32) ucb =
      .inl (ucb.setReg 13 (ucb.vrs 13 - BitVec.ofNat 32 (4 * (byte.toNat - 0x40) + 4))) := by
  have value : ((byte.setWidth 32 &&& (0x3f : Word)) <<< 2) + 4 =
      BitVec.ofNat 32 (4 * (byte.toNat - 0x40) + 4) := by
    revert byte
    decide
  rw [executeByte, if_neg (by rw [test_c0_00]; omega), if_pos ((test_c0_40 byte).mpr ⟨lower, upper⟩),
    value]

theorem executeByte_popMask (lower : 0x80 ≤ byte.toNat) (upper : byte.toNat < 0x90) {second : Byte}
    {next : Ucb} (read : unwindGetNextByte memories ucb = (second.setWidth 32, next)) :
    executeByte memories (byte.setWidth 32) ucb =
      let mask := BitVec.ofNat 12 (256 * (byte.toNat % 16) + second.toNat)
      if mask = 0 then .inr (0, next)
      else
        let popped := popAll memories.stack (next.vrs 13) next.vrs (masked mask 4)
        .inl ({ next with vrs := popped.2 }.setReg 13 popped.1) := by
  have bound := byte.isLt
  have small := second.isLt
  have refuses : (BitVec.ofNat 32 (256 * byte.toNat + second.toNat) : Word) = 0x8000 ↔
      BitVec.ofNat 12 (256 * (byte.toNat % 16) + second.toNat) = 0 := by
    rw [← BitVec.toNat_inj, ← BitVec.toNat_inj, BitVec.toNat_ofNat, BitVec.toNat_ofNat]
    change _ = 0x8000 ↔ _ = 0
    omega
  have selects : (BitVec.ofNat 32 (256 * byte.toNat + second.toNat) : Word) &&& 0xfff =
      (BitVec.ofNat 12 (256 * (byte.toNat % 16) + second.toNat)).setWidth 32 := by
    apply BitVec.eq_of_toNat_eq
    have ones : (0xfff : Word).toNat = 2 ^ 12 - 1 := by decide
    rw [BitVec.toNat_and, ones, Nat.and_two_pow_sub_one_eq_mod, BitVec.toNat_setWidth,
      BitVec.toNat_ofNat, BitVec.toNat_ofNat]
    omega
  rw [executeByte_mask lower upper read]
  simp only [joined_eq, selects]
  by_cases refused : BitVec.ofNat 12 (256 * (byte.toNat % 16) + second.toNat) = 0
  · rw [if_pos (refuses.mpr refused), if_pos refused]
  · rw [if_neg (fun same => refused (refuses.mp same)), if_neg refused,
      masked_setWidth (by decide)]

theorem executeByte_setVsp (lower : 0x90 ≤ byte.toNat) (upper : byte.toNat < 0xa0)
    (plain : ¬(byte.toNat % 16 = 13 ∨ byte.toNat % 16 = 15)) :
    executeByte memories (byte.setWidth 32) ucb =
      .inl (ucb.setReg 13 (ucb.vrs (byte.toNat % 16))) := by
  have register : (byte.setWidth 32 &&& (0x0f : Word)).toNat = byte.toNat % 16 := by
    clear plain upper lower
    revert byte
    decide
  have spare : byte.setWidth 32 ≠ (0x9d : Word) ∧ byte.setWidth 32 ≠ (0x9f : Word) := by
    constructor
    · intro same
      have value := (test_eq byte 0x9d).mp same
      have number : (0x9d : Byte).toNat = 0x9d := rfl
      omega
    · intro same
      have value := (test_eq byte 0x9f).mp same
      have number : (0x9f : Byte).toNat = 0x9f := rfl
      omega
  rw [executeByte, if_neg (by rw [test_c0_00]; omega), if_neg (by rw [test_c0_40]; omega),
    if_neg (by rw [test_f0_80]; omega), if_pos ⟨(test_f0_90 byte).mpr ⟨lower, upper⟩, spare⟩, register]

theorem executeByte_popRange (lower : 0xa0 ≤ byte.toNat) (upper : byte.toNat < 0xb0) :
    executeByte memories (byte.setWidth 32) ucb =
      let popped := popAll memories.stack (ucb.vrs 13) ucb.vrs
        (List.range' 4 (byte.toNat % 16 % 8 + 1) ++ if 8 ≤ byte.toNat % 16 then [14] else [])
      .inl ({ ucb with vrs := popped.2 }.setReg 13 popped.1) := by
  have count : (byte.setWidth 32 &&& (0x07 : Word)).toNat = byte.toNat % 16 % 8 := by
    clear upper lower
    revert byte
    decide
  have link : byte.setWidth 32 &&& (0x08 : Word) ≠ 0 ↔ 8 ≤ byte.toNat % 16 := by
    clear upper lower count
    revert byte
    decide
  rw [executeByte, if_neg (by rw [test_c0_00]; omega), if_neg (by rw [test_c0_40]; omega),
    if_neg (by rw [test_f0_80]; omega), if_neg (by rw [test_f0_90]; omega),
    if_pos ((test_f0_a0 byte).mpr ⟨lower, upper⟩), popFrom_eq, count]
  by_cases linked : 8 ≤ byte.toNat % 16
  · simp only [if_pos (link.mpr linked), if_pos linked, popAll_append, popAll]
  · simp only [if_neg (fun meets => linked (link.mp meets)), if_neg linked, List.append_nil]

theorem executeByte_high (byte : Byte) (lower : 0xb0 ≤ byte.toNat) :
    byte.setWidth 32 &&& (0xc0 : Word) ≠ 0x00 ∧ byte.setWidth 32 &&& (0xc0 : Word) ≠ 0x40 ∧
      byte.setWidth 32 &&& (0xf0 : Word) ≠ 0x80 ∧ byte.setWidth 32 &&& (0xf0 : Word) ≠ 0x90 ∧
      byte.setWidth 32 &&& (0xf0 : Word) ≠ 0xa0 := by
  refine ⟨?_, ?_, ?_, ?_, ?_⟩
  · rw [Ne, test_c0_00]
    omega
  · rw [Ne, test_c0_40]
    omega
  · rw [Ne, test_f0_80]
    omega
  · rw [Ne, test_f0_90]
    omega
  · rw [Ne, test_f0_a0]
    omega

theorem executeByte_finish (value : byte.toNat = 0xb0) :
    executeByte memories (byte.setWidth 32) ucb =
      .inr (0, if ucb.vrs 15 = 0 then ucb.setReg 15 (ucb.vrs 14) else ucb) := by
  have same : byte.setWidth 32 = (0xb0 : Word) := (test_eq byte 0xb0).mpr value
  obtain ⟨add, sub, mask, set, range⟩ := executeByte_high byte (by omega)
  rw [executeByte, if_neg add, if_neg sub, if_neg mask, if_neg (fun both => set both.1), if_neg range,
    if_pos same]

theorem executeByte_low (value : byte.toNat = 0xb1) {second : Word} {next : Ucb}
    (read : unwindGetNextByte memories ucb = (second, next)) :
    executeByte memories (byte.setWidth 32) ucb =
      let popped := popAll memories.stack (next.vrs 13) next.vrs (masked second 0)
      .inl ({ next with vrs := popped.2 }.setReg 13 popped.1) := by
  have same : byte.setWidth 32 = (0xb1 : Word) := (test_eq byte 0xb1).mpr value
  have other : byte.setWidth 32 ≠ (0xb0 : Word) := by
    rw [same]
    decide
  obtain ⟨add, sub, mask, set, range⟩ := executeByte_high byte (by omega)
  rw [executeByte, if_neg add, if_neg sub, if_neg mask, if_neg (fun both => set both.1), if_neg range,
    if_neg other, if_pos same, read]
  simp only [popUnderMask_eq (BitVec.isLt _)]

theorem executeByte_popLow (value : byte.toNat = 0xb1) {second : Byte} {next : Ucb}
    (read : unwindGetNextByte memories ucb = (second.setWidth 32, next)) (small : second.toNat < 16) :
    executeByte memories (byte.setWidth 32) ucb =
      let popped := popAll memories.stack (next.vrs 13) next.vrs
        (masked (BitVec.ofNat 4 second.toNat) 0)
      .inl ({ next with vrs := popped.2 }.setReg 13 popped.1) := by
  have widened : (second.setWidth 32 : Word) = (BitVec.ofNat 4 second.toNat).setWidth 32 := by
    apply BitVec.eq_of_toNat_eq
    rw [BitVec.toNat_setWidth, BitVec.toNat_setWidth, BitVec.toNat_ofNat]
    omega
  rw [executeByte_low value read, widened, masked_setWidth (show 4 ≤ 32 by decide)]

theorem executeByte_addLong (value : byte.toNat = 0xb2) {operand : Byte} {next : Ucb}
    (read : unwindGetNextByte memories ucb = (operand.setWidth 32, next)) :
    executeByte memories (byte.setWidth 32) ucb =
      .inl (next.setReg 13 (next.vrs 13 + 0x204 + BitVec.ofNat 32 (4 * operand.toNat))) := by
  have shifted : (operand.setWidth 32 : Word) <<< 2 = BitVec.ofNat 32 (4 * operand.toNat) := by
    clear read
    revert operand
    decide
  have same : byte.setWidth 32 = (0xb2 : Word) := (test_eq byte 0xb2).mpr value
  have others : byte.setWidth 32 ≠ (0xb0 : Word) ∧ byte.setWidth 32 ≠ (0xb1 : Word) := by
    rw [same]
    decide
  obtain ⟨add, sub, mask, set, range⟩ := executeByte_high byte (by omega)
  rw [executeByte, if_neg add, if_neg sub, if_neg mask, if_neg (fun both => set both.1), if_neg range,
    if_neg others.1, if_neg others.2, if_pos same, read]
  simp only [shifted, BitVec.add_assoc]

theorem vfp_words (base count : Word) (number : Nat) (fstmfdx : Prop) [Decidable fstmfdx]
    (same : 8 * count = BitVec.ofNat 32 (8 * number)) :
    (if fstmfdx then base + 8 * count + 4 else base + 8 * count) =
      base + BitVec.ofNat 32 (8 * number + if fstmfdx then 4 else 0) := by
  rw [same]
  by_cases more : fstmfdx
  · rw [if_pos more, if_pos more, BitVec.ofNat_add, BitVec.add_assoc]
    rfl
  · rw [if_neg more, if_neg more, Nat.add_zero]

theorem executeByte_popVfp (value : byte.toNat = 0xb3 ∨ byte.toNat = 0xc8 ∨ byte.toNat = 0xc9)
    {operand : Byte} {next : Ucb}
    (read : unwindGetNextByte memories ucb = (operand.setWidth 32, next)) :
    executeByte memories (byte.setWidth 32) ucb =
      .inl (next.setReg 13 (next.vrs 13 +
        BitVec.ofNat 32 (8 * (operand.toNat % 16 + 1) + if byte.toNat = 0xb3 then 4 else 0))) := by
  have count : (8 : Word) * ((operand.setWidth 32 &&& (0x0f : Word)) + 1) =
      BitVec.ofNat 32 (8 * (operand.toNat % 16 + 1)) := by
    clear read
    revert operand
    decide
  have long : byte.setWidth 32 = (0xb3 : Word) ∨ byte.setWidth 32 = (0xc8 : Word) ∨
      byte.setWidth 32 = (0xc9 : Word) :=
    value.imp (test_eq byte 0xb3).mpr (Or.imp (test_eq byte 0xc8).mpr (test_eq byte 0xc9).mpr)
  have others : byte.setWidth 32 ≠ (0xb0 : Word) ∧ byte.setWidth 32 ≠ (0xb1 : Word) ∧
      byte.setWidth 32 ≠ (0xb2 : Word) := by
    rcases long with same | same | same <;> rw [same] <;> decide
  have fstmfdx : byte.setWidth 32 = (0xb3 : Word) ↔ byte.toNat = 0xb3 := test_eq byte 0xb3
  obtain ⟨add, sub, mask, set, range⟩ := executeByte_high byte (by omega)
  rw [executeByte, if_neg add, if_neg sub, if_neg mask, if_neg (fun both => set both.1), if_neg range,
    if_neg others.1, if_neg others.2.1, if_neg others.2.2, if_pos long, read]
  simp only [vfp_words _ _ _ _ count, fstmfdx]

theorem executeByte_popVfpShort
    (value : (0xb8 ≤ byte.toNat ∧ byte.toNat < 0xc0) ∨ (0xd0 ≤ byte.toNat ∧ byte.toNat < 0xd8)) :
    executeByte memories (byte.setWidth 32) ucb =
      .inl (ucb.setReg 13 (ucb.vrs 13 + BitVec.ofNat 32
        (8 * (byte.toNat % 8 + 1) + if byte.toNat < 0xc0 then 4 else 0))) := by
  have count : (8 : Word) * ((byte.setWidth 32 &&& (0x07 : Word)) + 1) =
      BitVec.ofNat 32 (8 * (byte.toNat % 8 + 1)) := by
    clear value
    revert byte
    decide
  have short : byte.setWidth 32 &&& (0xf8 : Word) = 0xb8 ∨ byte.setWidth 32 &&& (0xf8 : Word) = 0xd0 :=
    value.imp (test_f8_b8 byte).mpr (test_f8_d0 byte).mpr
  have differs (number : Byte) (apart : byte.toNat ≠ number.toNat) :
      byte.setWidth 32 ≠ (number.setWidth 32 : Word) :=
    fun same => apart ((test_eq byte number).mp same)
  have others : byte.setWidth 32 ≠ (0xb0 : Word) ∧ byte.setWidth 32 ≠ (0xb1 : Word) ∧
      byte.setWidth 32 ≠ (0xb2 : Word) := by
    refine ⟨differs 0xb0 ?_, differs 0xb1 ?_, differs 0xb2 ?_⟩ <;> simp <;> omega
  have long : ¬(byte.setWidth 32 = (0xb3 : Word) ∨ byte.setWidth 32 = (0xc8 : Word) ∨
      byte.setWidth 32 = (0xc9 : Word)) := by
    rintro (same | same | same)
    · exact differs 0xb3 (by simp; omega) same
    · exact differs 0xc8 (by simp; omega) same
    · exact differs 0xc9 (by simp; omega) same
  have fstmfdx : byte.setWidth 32 &&& (0xf8 : Word) = 0xb8 ↔ byte.toNat < 0xc0 := by
    rw [test_f8_b8]
    omega
  obtain ⟨add, sub, mask, set, range⟩ := executeByte_high byte (by omega)
  rw [executeByte, if_neg add, if_neg sub, if_neg mask, if_neg (fun both => set both.1), if_neg range,
    if_neg others.1, if_neg others.2.1, if_neg others.2.2, if_neg long, if_pos short]
  simp only [vfp_words _ _ _ _ count, fstmfdx]

end Bytes

end PicoToolkit.Fault
