import PicoToolkit.Fault.Unwinding

/-!
The interpreter on bytes of any kind, also when they end inside of an instruction: which virtual registers
it reads and writes, and which bytes it consumes.
-/

namespace PicoToolkit.Fault

open Ehabi

section Registers

variable (memories : Memories)

/-- The indices into the virtual registers that are read or written for an instruction byte. -/
def byteRegisters (instruction : Word) (ucb : Ucb) : List Nat :=
  if instruction &&& 0xc0 = 0x00 ∨ instruction &&& 0xc0 = 0x40 then [13]
  else if instruction &&& 0xf0 = 0x80 then
    let instruction := instruction <<< 8 ||| (unwindGetNextByte memories ucb).1
    if instruction = 0x8000 then [] else 13 :: masked (instruction &&& 0xfff) 4
  else if instruction &&& 0xf0 = 0x90 ∧ instruction ≠ 0x9d ∧ instruction ≠ 0x9f then
    [13, (instruction &&& 0x0f).toNat]
  else if instruction &&& 0xf0 = 0xa0 then
    13 :: (List.range' 4 ((instruction &&& 0x07).toNat + 1) ++
      if instruction &&& 0x08 ≠ 0 then [14] else [])
  else if instruction = 0xb0 then
    if ucb.vrs 15 = 0 then [15, 14] else [15]
  else if instruction = 0xb1 then 13 :: masked (unwindGetNextByte memories ucb).1 0
  else if instruction = 0xb2 ∨ (instruction = 0xb3 ∨ instruction = 0xc8 ∨ instruction = 0xc9) ∨
      (instruction &&& 0xf8 = 0xb8 ∨ instruction &&& 0xf8 = 0xd0) then [13]
  else []

/-- The indices into the virtual registers during `unwind_execute_instruction`. -/
def executedRegisters : Nat → Ucb → List Nat
  | 0, _ => []
  | fuel + 1, ucb =>
      let (instruction, ucb) := unwindGetNextByte memories ucb
      if instruction = uint32Max then []
      else
        byteRegisters memories instruction ucb ++
          match executeByte memories instruction ucb with
          | .inl ucb => executedRegisters fuel ucb
          | .inr _ => []

end Registers

/-- The bytes behind an instruction as the interpreter takes them: its operand is one byte, or none if
there are no more bytes.  There are none behind an instruction that returns. -/
def behind (first : Byte) (rest : List Byte) : Option (List Byte) :=
  if first.toNat < 0x80 then some rest
  else if first.toNat < 0x90 then
    if first.toNat = 0x80 ∧ rest.head? = some 0 then none else some rest.tail
  else if first.toNat = 0x9d ∨ first.toNat = 0x9f then none
  else if first.toNat < 0xb0 then some rest
  else if first.toNat = 0xb0 then none
  else if first.toNat = 0xb1 ∨ first.toNat = 0xb2 ∨ first.toNat = 0xb3 ∨ first.toNat = 0xc8 ∨
      first.toNat = 0xc9 then some rest.tail
  else if (0xb8 ≤ first.toNat ∧ first.toNat < 0xc0) ∨ (0xd0 ≤ first.toNat ∧ first.toNat < 0xd8) then
    some rest
  else none

/-- The bytes end with an opcode 0xb1 whose mask is missing, and no instruction before it returns. -/
inductive EndsInPop : List Byte → Prop
  | last : EndsInPop [0xb1]
  | later {first rest left} : behind first rest = some left → EndsInPop left → EndsInPop (first :: rest)

variable {memories : Memories} {ucb : Ucb} {first : Byte} {rest : List Byte}

theorem mem_masked {width : Nat} {mask : BitVec width} {start register : Nat} :
    register ∈ masked mask start ↔
      ∃ index, index < width ∧ mask.getLsbD index = true ∧ start + index = register := by
  simp [masked, and_assoc]

theorem unwindGetNextByte_tail (ucb : Ucb) :
    (unwindGetNextByte memories ucb).2.bytes memories.table = (ucb.bytes memories.table).tail := by
  cases bytes : ucb.bytes memories.table with
  | nil =>
      rw [unwindGetNextByte_nil bytes]
      exact bytes
  | cons first rest =>
      obtain ⟨next, read, _, left, _⟩ := unwindGetNextByte_cons bytes
      rw [read]
      exact left

section Outside

variable {register : Nat}

theorem unwindGetNextByte_setReg (ucb : Ucb) (register : Nat) (value : Word) :
    unwindGetNextByte memories (ucb.setReg register value) =
      ((unwindGetNextByte memories ucb).1, (unwindGetNextByte memories ucb).2.setReg register value) := by
  unfold unwindGetNextByte
  by_cases none : ucb.remaining = 0
  · rw [if_pos none, if_pos (show (ucb.setReg register value).remaining = 0 from none)]
  · rw [if_neg none, if_neg (show ¬(ucb.setReg register value).remaining = 0 from none)]
    by_cases last : ucb.byte = 0
    · simp only [if_pos last, if_pos (show (ucb.setReg register value).byte = 0 from last)]
      rfl
    · simp only [if_neg last, if_neg (show ¬(ucb.setReg register value).byte = 0 from last)]
      rfl

theorem popFrom_update {count reg : Nat} {vsp : Word} {vrs : Nat → Word}
    (outside : register ∉ List.range' reg count) (value : Word) :
    popFrom memories count reg vsp (Function.update vrs register value) =
      ((popFrom memories count reg vsp vrs).1,
        Function.update (popFrom memories count reg vsp vrs).2 register value) := by
  induction count generalizing reg vsp vrs with
  | zero => rfl
  | succ count ih =>
      rw [List.range'_succ, List.mem_cons, not_or] at outside
      rw [popFrom, popFrom, Function.update_comm outside.1, ih outside.2]

theorem setReg_update {other : Nat} (different : register ≠ other) (value vsp : Word)
    (vrs : Nat → Word) :
    { ucb with vrs := Function.update vrs register value }.setReg other vsp =
      ({ ucb with vrs := vrs }.setReg other vsp).setReg register value := by
  simp only [Ucb.setReg, Function.update_comm different]

theorem setReg_comm {other : Nat} (different : register ≠ other) (value vsp : Word) :
    (ucb.setReg register value).setReg other vsp = (ucb.setReg other vsp).setReg register value :=
  setReg_update different value vsp ucb.vrs

theorem vrs_setReg {other : Nat} (different : register ≠ other) (value : Word) :
    (ucb.setReg register value).vrs other = ucb.vrs other :=
  Function.update_of_ne different.symm _ _

theorem executeByte_setReg_high {instruction : Word}
    (vsp : ¬(instruction &&& 0xc0 = 0x00 ∨ instruction &&& 0xc0 = 0x40))
    (mask : ¬instruction &&& 0xf0 = 0x80)
    (set : ¬(instruction &&& 0xf0 = 0x90 ∧ instruction ≠ 0x9d ∧ instruction ≠ 0x9f))
    (range : ¬instruction &&& 0xf0 = 0xa0)
    (outside : register ∉ byteRegisters memories instruction ucb) (value : Word) :
    executeByte memories instruction (ucb.setReg register value) =
      (executeByte memories instruction ucb).map (·.setReg register value)
        (Prod.map id (·.setReg register value)) := by
  obtain ⟨add, sub⟩ := not_or.mp vsp
  rw [byteRegisters, if_neg vsp, if_neg mask, if_neg set, if_neg range] at outside
  rw [executeByte, executeByte, if_neg add, if_neg add, if_neg sub, if_neg sub, if_neg mask, if_neg mask,
    if_neg set, if_neg set, if_neg range, if_neg range]
  by_cases finish : instruction = 0xb0
  · rw [if_pos finish] at outside
    rw [if_pos finish, if_pos finish]
    split at outside
    · rename_i unset
      rw [List.mem_cons, List.mem_singleton, not_or] at outside
      rw [vrs_setReg outside.1, vrs_setReg outside.2, if_pos unset, if_pos unset,
        setReg_comm outside.1]
      rfl
    · rename_i isSet
      rw [List.mem_singleton] at outside
      rw [vrs_setReg outside, if_neg isSet, if_neg isSet]
      rfl
  rw [if_neg finish] at outside
  rw [if_neg finish, if_neg finish]
  by_cases low : instruction = 0xb1
  · rw [if_pos low, List.mem_cons, not_or] at outside
    rw [if_pos low, if_pos low, unwindGetNextByte_setReg]
    simp only
    rw [vrs_setReg outside.1, popUnderMask_eq (BitVec.isLt _), popUnderMask_eq (BitVec.isLt _)]
    simp only [Ucb.setReg, popAll_update outside.2]
    exact congrArg Sum.inl (setReg_update outside.1 value _ _)
  rw [if_neg low] at outside
  rw [if_neg low, if_neg low]
  by_cases long : instruction = 0xb2
  · rw [if_pos (.inl long), List.mem_singleton] at outside
    rw [if_pos long, if_pos long, unwindGetNextByte_setReg]
    simp only
    rw [vrs_setReg outside, setReg_comm outside]
    rfl
  rw [if_neg long, if_neg long]
  by_cases vfp : instruction = 0xb3 ∨ instruction = 0xc8 ∨ instruction = 0xc9
  · rw [if_pos (.inr (.inl vfp)), List.mem_singleton] at outside
    rw [if_pos vfp, if_pos vfp, unwindGetNextByte_setReg]
    simp only
    rw [vrs_setReg outside, setReg_comm outside]
    rfl
  rw [if_neg vfp, if_neg vfp]
  by_cases short : instruction &&& 0xf8 = 0xb8 ∨ instruction &&& 0xf8 = 0xd0
  · rw [if_pos (.inr (.inr short)), List.mem_singleton] at outside
    rw [if_pos short, if_pos short]
    simp only
    rw [vrs_setReg outside, setReg_comm outside]
    rfl
  · rw [if_neg short, if_neg short]
    rfl

/-- An instruction neither reads nor writes any other register. -/
theorem executeByte_setReg {instruction : Word}
    (outside : register ∉ byteRegisters memories instruction ucb) (value : Word) :
    executeByte memories instruction (ucb.setReg register value) =
      (executeByte memories instruction ucb).map (·.setReg register value)
        (Prod.map id (·.setReg register value)) := by
  by_cases add : instruction &&& 0xc0 = 0x00
  · rw [byteRegisters, if_pos (.inl add), List.mem_singleton] at outside
    rw [executeByte, executeByte, if_pos add, if_pos add, vrs_setReg outside, setReg_comm outside]
    rfl
  by_cases sub : instruction &&& 0xc0 = 0x40
  · rw [byteRegisters, if_pos (.inr sub), List.mem_singleton] at outside
    rw [executeByte, executeByte, if_neg add, if_neg add, if_pos sub, if_pos sub, vrs_setReg outside, setReg_comm outside]
    rfl
  have vsp := not_or.mpr ⟨add, sub⟩
  by_cases mask : instruction &&& 0xf0 = 0x80
  · rw [byteRegisters, if_neg vsp, if_pos mask] at outside
    rw [executeByte, executeByte, if_neg add, if_neg add, if_neg sub, if_neg sub, if_pos mask,
      if_pos mask, unwindGetNextByte_setReg]
    simp only at outside ⊢
    split at outside
    · rename_i refuses
      rw [if_pos refuses, if_pos refuses]
      rfl
    · rename_i accepts
      rw [List.mem_cons, not_or] at outside
      have used : (0 : Word) &&& (1 : Word) <<< (13 - 4) = 0 := by decide
      rw [if_neg accepts, if_neg accepts, vrs_setReg outside.1, popUnderMask_eq (BitVec.isLt _),
        popUnderMask_eq (BitVec.isLt _)]
      simp only [Ucb.setReg, popAll_update outside.2, if_pos used]
      exact congrArg Sum.inl (setReg_update outside.1 value _ _)
  by_cases set : instruction &&& 0xf0 = 0x90 ∧ instruction ≠ 0x9d ∧ instruction ≠ 0x9f
  · rw [byteRegisters, if_neg vsp, if_neg mask, if_pos set, List.mem_cons, List.mem_singleton,
      not_or] at outside
    rw [executeByte, executeByte, if_neg add, if_neg add, if_neg sub, if_neg sub, if_neg mask,
      if_neg mask, if_pos set, if_pos set, vrs_setReg outside.2, setReg_comm outside.1]
    rfl
  by_cases range : instruction &&& 0xf0 = 0xa0
  · rw [byteRegisters, if_neg vsp, if_neg mask, if_neg set, if_pos range, List.mem_cons,
      List.mem_append, not_or, not_or] at outside
    obtain ⟨notSp, notPopped, notLinked⟩ := outside
    rw [executeByte, executeByte, if_neg add, if_neg add, if_neg sub, if_neg sub, if_neg mask,
      if_neg mask, if_neg set, if_neg set, if_pos range, if_pos range, vrs_setReg notSp, Ucb.setReg, popFrom_update notPopped]
    by_cases link : instruction &&& 0x08 ≠ 0
    · rw [if_pos link, List.mem_singleton] at notLinked
      simp only [if_pos link, Function.update_comm notLinked]
      exact congrArg Sum.inl (setReg_update notSp value _ _)
    · simp only [if_neg link]
      exact congrArg Sum.inl (setReg_update notSp value _ _)
  exact executeByte_setReg_high vsp mask set range outside value

/-- What is in the other registers is neither read nor written. -/
theorem unwindExecuteInstruction_setReg {fuel : Nat} {ucb : Ucb}
    (outside : register ∉ executedRegisters memories fuel ucb) (value : Word) :
    unwindExecuteInstruction memories fuel (ucb.setReg register value) =
      (unwindExecuteInstruction memories fuel ucb).map (Prod.map id (·.setReg register value)) := by
  induction fuel generalizing ucb with
  | zero => rfl
  | succ fuel ih =>
      rw [executedRegisters] at outside
      rw [unwindExecuteInstruction, unwindExecuteInstruction, unwindGetNextByte_setReg]
      simp only at outside ⊢
      by_cases none : (unwindGetNextByte memories ucb).1 = uint32Max
      · rw [if_pos none, if_pos none]
        rfl
      · rw [if_neg none, List.mem_append, not_or] at outside
        rw [if_neg none, if_neg none, executeByte_setReg outside.1]
        cases executed : executeByte memories (unwindGetNextByte memories ucb).1
          (unwindGetNextByte memories ucb).2 with
        | inl after =>
            rw [executed] at outside
            exact ih outside.2
        | inr returned => rfl

end Outside

theorem behind_length {left : List Byte} (goes : behind first rest = some left) :
    left.length ≤ rest.length := by
  have tail : rest.tail.length ≤ rest.length := by simp
  revert goes
  unfold behind
  repeat' split
  all_goals rintro ⟨⟩ <;> first | exact tail | exact Nat.le_refl _

theorem behind_append {left : List Byte} (goes : behind first rest = some left) :
    ∃ consumed, rest = consumed ++ left := by
  have tail : ∃ consumed, rest = consumed ++ rest.tail := by
    cases rest with
    | nil => exact ⟨[], rfl⟩
    | cons second rest => exact ⟨[second], rfl⟩
  revert goes
  unfold behind
  repeat' split
  all_goals rintro ⟨⟩ <;> first | exact tail | exact ⟨[], rfl⟩

section Rounds

/-- What a round of the loop does: it goes on with the bytes behind the instruction or returns, and it
touches virtual registers only unless the mask of an opcode 0xb1 is missing. -/
structure Round (memories : Memories) (ucb : Ucb) (first : Byte) (rest : List Byte) : Prop where
  goes : ∀ left, behind first rest = some left →
    ∃ after, executeByte memories (first.setWidth 32) ucb = .inl after ∧
      after.bytes memories.table = left
  returns : behind first rest = none →
    ∃ result after, executeByte memories (first.setWidth 32) ucb = .inr (result, after) ∧
      ∃ consumed, rest = consumed ++ after.bytes memories.table
  inside : ¬(first.toNat = 0xb1 ∧ rest = []) →
    ∀ register ∈ byteRegisters memories (first.setWidth 32) ucb, register < 16

theorem Round.ofGoes {left : List Byte} {after : Ucb} {registers : List Nat}
    (goes : behind first rest = some left)
    (executed : executeByte memories (first.setWidth 32) ucb = .inl after)
    (touched : byteRegisters memories (first.setWidth 32) ucb = registers)
    (bytes : after.bytes memories.table = left)
    (inside : ¬(first.toNat = 0xb1 ∧ rest = []) → ∀ register ∈ registers, register < 16) :
    Round memories ucb first rest where
  goes := by
    intro other same
    cases goes.symm.trans same
    exact ⟨after, executed, bytes⟩
  returns := fun none => absurd (goes.symm.trans none) (Option.some_ne_none _)
  inside := touched ▸ inside

theorem Round.ofReturns {result : Int} {after : Ucb} {registers : List Nat}
    (returns : behind first rest = none)
    (executed : executeByte memories (first.setWidth 32) ucb = .inr (result, after))
    (touched : byteRegisters memories (first.setWidth 32) ucb = registers)
    (bytes : ∃ consumed, rest = consumed ++ after.bytes memories.table)
    (inside : ∀ register ∈ registers, register < 16) :
    Round memories ucb first rest where
  goes := fun _ some => absurd (returns.symm.trans some) (Option.some_ne_none _).symm
  returns := fun _ => ⟨result, after, executed, bytes⟩
  inside := touched ▸ fun _ => inside

theorem Round.ofMoves {left : List Byte} {cursor : Ucb} {value : Word}
    (goes : behind first rest = some left)
    (executed : executeByte memories (first.setWidth 32) ucb = .inl (cursor.setReg 13 value))
    (touched : byteRegisters memories (first.setWidth 32) ucb = [13])
    (bytes : cursor.bytes memories.table = left) : Round memories ucb first rest := by
  refine .ofGoes goes executed touched bytes ?_
  intro _ register member
  cases List.mem_singleton.mp member
  decide

theorem Round.ofPops {left : List Byte} {cursor : Ucb} {vsp : Word} {vrs : Nat → Word}
    {registers : List Nat} (goes : behind first rest = some left)
    (executed : executeByte memories (first.setWidth 32) ucb =
      .inl ({ cursor with vrs := vrs }.setReg 13 vsp))
    (touched : byteRegisters memories (first.setWidth 32) ucb = 13 :: registers)
    (bytes : cursor.bytes memories.table = left)
    (inside : ¬(first.toNat = 0xb1 ∧ rest = []) → ∀ register ∈ registers, register < 16) :
    Round memories ucb first rest := by
  refine .ofGoes goes executed touched bytes ?_
  intro whole register member
  rcases List.mem_cons.mp member with rfl | within
  · decide
  · exact inside whole register within

theorem round_vsp (upper : first.toNat < 0x80) (bytes : ucb.bytes memories.table = rest) :
    Round memories ucb first rest := by
  have goes : behind first rest = some rest := if_pos upper
  by_cases adds : first.toNat < 0x40
  · refine .ofMoves goes (executeByte_addVsp adds) ?_ bytes
    rw [byteRegisters, if_pos (.inl ((test_c0_00 first).mpr adds))]
  · have subtracts : 0x40 ≤ first.toNat := Nat.not_lt.mp adds
    refine .ofMoves goes (executeByte_subVsp subtracts upper) ?_ bytes
    rw [byteRegisters, if_pos (.inr ((test_c0_40 first).mpr ⟨subtracts, upper⟩))]

theorem byteRegisters_high (lower : 0x80 ≤ first.toNat) :
    ¬(first.setWidth 32 &&& (0xc0 : Word) = 0x00 ∨ first.setWidth 32 &&& (0xc0 : Word) = 0x40) := by
  rw [test_c0_00, test_c0_40]
  omega

theorem lt_of_mem_masked_low {mask : Word} {register : Nat}
    (member : register ∈ masked (mask &&& 0xfff) 4) : register < 16 := by
  obtain ⟨index, _, set, rfl⟩ := mem_masked.mp member
  have low : (0xfff : Word) = (BitVec.allOnes 12).setWidth 32 := by decide
  rw [low, BitVec.getLsbD_and, BitVec.getLsbD_setWidth, BitVec.getLsbD_allOnes] at set
  have small : index < 12 := by
    simp only [Bool.and_eq_true, decide_eq_true_eq] at set
    exact set.2.2
  omega

theorem refuses_iff (lower : 0x80 ≤ first.toNat) (upper : first.toNat < 0x90)
    (bytes : ucb.bytes memories.table = rest) :
    (first.setWidth 32 : Word) <<< 8 ||| (unwindGetNextByte memories ucb).1 = 0x8000 ↔
      first.toNat = 0x80 ∧ rest.head? = some 0 := by
  cases rest with
  | nil =>
      rw [unwindGetNextByte_nil bytes]
      have ones : uint32Max = BitVec.allOnes 32 := by decide
      rw [ones, BitVec.or_allOnes]
      simp
  | cons second rest =>
      obtain ⟨next, read, _⟩ := unwindGetNextByte_cons bytes
      have bound := first.isLt
      have small := second.isLt
      rw [read, joined_eq, ← BitVec.toNat_inj, BitVec.toNat_ofNat, List.head?_cons, Option.some_inj,
        ← BitVec.toNat_inj]
      change _ = 0x8000 ↔ _ ∧ second.toNat = 0
      omega

theorem round_mask (lower : 0x80 ≤ first.toNat) (upper : first.toNat < 0x90)
    (bytes : ucb.bytes memories.table = rest) : Round memories ucb first rest := by
  have left := @unwindGetNextByte_tail memories ucb
  rw [bytes] at left
  have executed := @executeByte_mask memories first ucb (unwindGetNextByte memories ucb).2
    (unwindGetNextByte memories ucb).1 lower upper rfl
  have refuses := refuses_iff lower upper bytes
  have touched : byteRegisters memories (first.setWidth 32) ucb =
      let instruction := (first.setWidth 32 : Word) <<< 8 ||| (unwindGetNextByte memories ucb).1
      if instruction = 0x8000 then [] else 13 :: masked (instruction &&& 0xfff) 4 := by
    rw [byteRegisters, if_neg (byteRegisters_high lower),
      if_pos ((test_f0_80 first).mpr ⟨lower, upper⟩)]
  have shape : behind first rest =
      if first.toNat = 0x80 ∧ rest.head? = some 0 then none else some rest.tail := by
    rw [behind, if_neg (Nat.not_lt.mpr lower), if_pos upper]
  by_cases refused : first.toNat = 0x80 ∧ rest.head? = some 0
  · rw [if_pos refused] at shape
    simp only [if_pos (refuses.mpr refused)] at executed touched
    refine .ofReturns shape executed touched ⟨rest.take 1, ?_⟩ ?_
    · rw [left, ← List.drop_one, List.take_append_drop]
    · exact fun register member => absurd member List.not_mem_nil
  · rw [if_neg refused] at shape
    have accepted := mt refuses.mp refused
    simp only [if_neg accepted] at executed touched
    exact .ofPops shape executed touched left fun _ _ member => lt_of_mem_masked_low member

theorem round_set (lower : 0x90 ≤ first.toNat) (upper : first.toNat < 0xa0)
    (plain : ¬(first.toNat = 0x9d ∨ first.toNat = 0x9f)) (bytes : ucb.bytes memories.table = rest) :
    Round memories ucb first rest := by
  have goes : behind first rest = some rest := by
    rw [behind, if_neg (by omega), if_neg (by omega), if_neg plain, if_pos (by omega)]
  have spare : first.setWidth 32 ≠ (0x9d : Word) ∧ first.setWidth 32 ≠ (0x9f : Word) :=
    ⟨fun same => plain (.inl ((test_eq first 0x9d).mp same)),
      fun same => plain (.inr ((test_eq first 0x9f).mp same))⟩
  have source : (first.setWidth 32 &&& (0x0f : Word)).toNat < 16 := by
    clear plain upper lower goes spare bytes
    revert first
    decide
  have touched : byteRegisters memories (first.setWidth 32) ucb =
      [13, (first.setWidth 32 &&& (0x0f : Word)).toNat] := by
    rw [byteRegisters, if_neg (byteRegisters_high (by omega)), if_neg (by rw [test_f0_80]; omega),
      if_pos ⟨(test_f0_90 first).mpr ⟨lower, upper⟩, spare⟩]
  refine .ofGoes goes (executeByte_setVsp lower upper (by omega)) touched bytes ?_
  intro _ register member
  rcases List.mem_pair.mp member with rfl | rfl
  · decide
  · exact source

theorem round_range (lower : 0xa0 ≤ first.toNat) (upper : first.toNat < 0xb0)
    (bytes : ucb.bytes memories.table = rest) : Round memories ucb first rest := by
  have goes : behind first rest = some rest := by
    rw [behind, if_neg (by omega), if_neg (by omega), if_neg (by omega), if_pos (by omega)]
  have count : (first.setWidth 32 &&& (0x07 : Word)).toNat = first.toNat % 16 % 8 := by
    clear upper lower goes bytes
    revert first
    decide
  have link : first.setWidth 32 &&& (0x08 : Word) ≠ 0 ↔ 8 ≤ first.toNat % 16 := by
    clear upper lower goes bytes count
    revert first
    decide
  have touched : byteRegisters memories (first.setWidth 32) ucb =
      13 :: (List.range' 4 (first.toNat % 16 % 8 + 1) ++ if 8 ≤ first.toNat % 16 then [14] else []) := by
    rw [byteRegisters, if_neg (byteRegisters_high (by omega)), if_neg (by rw [test_f0_80]; omega),
      if_neg (by rw [test_f0_90]; omega), if_pos ((test_f0_a0 first).mpr ⟨lower, upper⟩), count]
    simp only [link]
  refine .ofPops goes (executeByte_popRange lower upper) touched bytes fun _ register member => ?_
  rcases List.mem_append.mp member with low | linked
  · have below := List.mem_range'_1.mp low
    omega
  · split at linked
    · cases List.mem_singleton.mp linked
      decide
    · exact absurd linked List.not_mem_nil

theorem byteRegisters_from (lower : 0xb0 ≤ first.toNat) :
    byteRegisters memories (first.setWidth 32) ucb =
      if first.toNat = 0xb0 then if ucb.vrs 15 = 0 then [15, 14] else [15]
      else if first.toNat = 0xb1 then 13 :: masked (unwindGetNextByte memories ucb).1 0
      else if first.toNat = 0xb2 ∨ (first.toNat = 0xb3 ∨ first.toNat = 0xc8 ∨ first.toNat = 0xc9) ∨
        ((0xb8 ≤ first.toNat ∧ first.toNat < 0xc0) ∨ (0xd0 ≤ first.toNat ∧ first.toNat < 0xd8)) then
          [13]
      else [] := by
  have b0 : first.setWidth 32 = (0xb0 : Word) ↔ first.toNat = 0xb0 := test_eq first 0xb0
  have b1 : first.setWidth 32 = (0xb1 : Word) ↔ first.toNat = 0xb1 := test_eq first 0xb1
  have b2 : first.setWidth 32 = (0xb2 : Word) ↔ first.toNat = 0xb2 := test_eq first 0xb2
  have b3 : first.setWidth 32 = (0xb3 : Word) ↔ first.toNat = 0xb3 := test_eq first 0xb3
  have c8 : first.setWidth 32 = (0xc8 : Word) ↔ first.toNat = 0xc8 := test_eq first 0xc8
  have c9 : first.setWidth 32 = (0xc9 : Word) ↔ first.toNat = 0xc9 := test_eq first 0xc9
  obtain ⟨_, _, mask, set, range⟩ := executeByte_high first lower
  rw [byteRegisters, if_neg (byteRegisters_high (by omega)), if_neg mask,
    if_neg (fun both => set both.1), if_neg range]
  simp only [b0, b1, b2, b3, c8, c9, test_f8_b8, test_f8_d0]

theorem behind_from (lower : 0xb0 ≤ first.toNat) :
    behind first rest =
      if first.toNat = 0xb0 then none
      else if first.toNat = 0xb1 ∨ first.toNat = 0xb2 ∨ first.toNat = 0xb3 ∨ first.toNat = 0xc8 ∨
        first.toNat = 0xc9 then some rest.tail
      else if (0xb8 ≤ first.toNat ∧ first.toNat < 0xc0) ∨ (0xd0 ≤ first.toNat ∧ first.toNat < 0xd8) then
        some rest
      else none := by
  rw [behind, if_neg (by omega), if_neg (by omega), if_neg (by omega), if_neg (by omega)]

theorem round_finish (value : first.toNat = 0xb0) (bytes : ucb.bytes memories.table = rest) :
    Round memories ucb first rest := by
  have returns : behind first rest = none := by
    rw [behind_from (by omega), if_pos value]
  have touched : byteRegisters memories (first.setWidth 32) ucb =
      if ucb.vrs 15 = 0 then [15, 14] else [15] := by
    rw [byteRegisters_from (by omega), if_pos value]
  have executed := @executeByte_finish memories first ucb value
  by_cases unset : ucb.vrs 15 = 0
  · rw [if_pos unset] at touched executed
    refine .ofReturns returns executed touched ⟨[], bytes.symm⟩ ?_
    intro register member
    rcases List.mem_pair.mp member with rfl | rfl
    · decide
    · decide
  · rw [if_neg unset] at touched executed
    refine .ofReturns returns executed touched ⟨[], bytes.symm⟩ ?_
    intro register member
    cases List.mem_singleton.mp member
    decide

theorem round_low (value : first.toNat = 0xb1) (bytes : ucb.bytes memories.table = rest) :
    Round memories ucb first rest := by
  have left := @unwindGetNextByte_tail memories ucb
  rw [bytes] at left
  have goes : behind first rest = some rest.tail := by
    rw [behind_from (by omega), if_neg (by omega), if_pos (.inl value)]
  have touched : byteRegisters memories (first.setWidth 32) ucb =
      13 :: masked (unwindGetNextByte memories ucb).1 0 := by
    rw [byteRegisters_from (by omega), if_neg (by omega), if_pos value]
  have executed := @executeByte_low memories first ucb value (unwindGetNextByte memories ucb).1
    (unwindGetNextByte memories ucb).2 rfl
  refine .ofPops goes executed touched left fun whole register member => ?_
  cases rest with
  | nil => exact absurd ⟨value, rfl⟩ whole
  | cons second rest =>
      obtain ⟨next, read, _⟩ := unwindGetNextByte_cons bytes
      rw [read, masked_setWidth (show 8 ≤ 32 by decide)] at member
      have low := lt_of_mem_masked member
      omega

theorem executeByte_moves (lower : 0xb2 ≤ first.toNat) {left : List Byte}
    (goes : behind first rest = some left) (bytes : ucb.bytes memories.table = rest) :
    ∃ (cursor : Ucb) (value : Word),
      executeByte memories (first.setWidth 32) ucb = .inl (cursor.setReg 13 value) ∧
        cursor.bytes memories.table = left := by
  have tail := @unwindGetNextByte_tail memories ucb
  rw [bytes] at tail
  have b2 : first.setWidth 32 = (0xb2 : Word) ↔ first.toNat = 0xb2 := test_eq first 0xb2
  have b3 : first.setWidth 32 = (0xb3 : Word) ↔ first.toNat = 0xb3 := test_eq first 0xb3
  have c8 : first.setWidth 32 = (0xc8 : Word) ↔ first.toNat = 0xc8 := test_eq first 0xc8
  have c9 : first.setWidth 32 = (0xc9 : Word) ↔ first.toNat = 0xc9 := test_eq first 0xc9
  have others : first.setWidth 32 ≠ (0xb0 : Word) ∧ first.setWidth 32 ≠ (0xb1 : Word) := by
    constructor
    · intro same
      have value : first.toNat = 0xb0 := (test_eq first 0xb0).mp same
      omega
    · intro same
      have value : first.toNat = 0xb1 := (test_eq first 0xb1).mp same
      omega
  obtain ⟨add, sub, mask, set, range⟩ := executeByte_high first (by omega)
  rw [behind_from (by omega), if_neg (by omega)] at goes
  rw [executeByte, if_neg add, if_neg sub, if_neg mask, if_neg (fun both => set both.1), if_neg range,
    if_neg others.1, if_neg others.2]
  by_cases operand : first.toNat = 0xb1 ∨ first.toNat = 0xb2 ∨ first.toNat = 0xb3 ∨
      first.toNat = 0xc8 ∨ first.toNat = 0xc9
  · rw [if_pos operand] at goes
    cases goes
    by_cases long : first.toNat = 0xb2
    · rw [if_pos (b2.mpr long)]
      exact ⟨_, _, rfl, tail⟩
    · have vfp : first.toNat = 0xb3 ∨ first.toNat = 0xc8 ∨ first.toNat = 0xc9 := by omega
      rw [if_neg (mt b2.mp long), if_pos (vfp.imp b3.mpr (Or.imp c8.mpr c9.mpr))]
      exact ⟨_, _, rfl, tail⟩
  · rw [if_neg operand] at goes
    split at goes
    · rename_i short
      cases goes
      have long : ¬(first.setWidth 32 = (0xb3 : Word) ∨ first.setWidth 32 = (0xc8 : Word) ∨
          first.setWidth 32 = (0xc9 : Word)) := by
        rw [b3, c8, c9]
        omega
      rw [if_neg (mt b2.mp (by omega)), if_neg long,
        if_pos (short.imp (test_f8_b8 first).mpr (test_f8_d0 first).mpr)]
      exact ⟨ucb, _, rfl, bytes⟩
    · cases goes

theorem executeByte_unknown (lower : 0xb2 ≤ first.toNat) (returns : behind first rest = none) :
    executeByte memories (first.setWidth 32) ucb = .inr (-1, ucb) := by
  have b2 : first.setWidth 32 = (0xb2 : Word) ↔ first.toNat = 0xb2 := test_eq first 0xb2
  have b3 : first.setWidth 32 = (0xb3 : Word) ↔ first.toNat = 0xb3 := test_eq first 0xb3
  have c8 : first.setWidth 32 = (0xc8 : Word) ↔ first.toNat = 0xc8 := test_eq first 0xc8
  have c9 : first.setWidth 32 = (0xc9 : Word) ↔ first.toNat = 0xc9 := test_eq first 0xc9
  have b0 : first.setWidth 32 = (0xb0 : Word) ↔ first.toNat = 0xb0 := test_eq first 0xb0
  have b1 : first.setWidth 32 = (0xb1 : Word) ↔ first.toNat = 0xb1 := test_eq first 0xb1
  obtain ⟨add, sub, mask, set, range⟩ := executeByte_high first (by omega)
  rw [behind_from (by omega), if_neg (by omega)] at returns
  split at returns
  · cases returns
  · split at returns
    · cases returns
    · rw [executeByte, if_neg add, if_neg sub, if_neg mask, if_neg (fun both => set both.1),
        if_neg range, if_neg (by rw [b0]; omega), if_neg (by rw [b1]; omega),
        if_neg (by rw [b2]; omega), if_neg (by rw [b3, c8, c9]; omega),
        if_neg (by rw [test_f8_b8, test_f8_d0]; omega)]

theorem executeByte_spare (spare : first.toNat = 0x9d ∨ first.toNat = 0x9f) :
    executeByte memories (first.setWidth 32) ucb = .inr (-1, ucb) ∧
      byteRegisters memories (first.setWidth 32) ucb = [] := by
  have cases : first.setWidth 32 = (0x9d : Word) ∨ first.setWidth 32 = (0x9f : Word) :=
    spare.imp (test_eq first 0x9d).mpr (test_eq first 0x9f).mpr
  rcases cases with same | same
  · rw [same]
    exact ⟨rfl, rfl⟩
  · rw [same]
    exact ⟨rfl, rfl⟩

theorem round_from (lower : 0xb2 ≤ first.toNat) (bytes : ucb.bytes memories.table = rest) :
    Round memories ucb first rest := by
  have touched := @byteRegisters_from memories ucb first (by omega)
  rw [if_neg (by omega), if_neg (by omega)] at touched
  cases shape : behind first rest with
  | some left =>
      obtain ⟨cursor, value, executed, cursorBytes⟩ := executeByte_moves lower shape bytes
      refine .ofMoves shape executed ?_ cursorBytes
      rw [behind_from (by omega), if_neg (by omega)] at shape
      rw [touched, if_pos]
      by_contra unknown
      rw [if_neg (by omega), if_neg (by omega)] at shape
      cases shape
  | none =>
      have executed := @executeByte_unknown memories ucb first rest lower shape
      refine .ofReturns shape executed touched ⟨[], bytes.symm⟩ ?_
      intro register member
      split at member
      · cases List.mem_singleton.mp member
        decide
      · exact absurd member List.not_mem_nil

theorem round (bytes : ucb.bytes memories.table = rest) : Round memories ucb first rest := by
  by_cases vsp : first.toNat < 0x80
  · exact round_vsp vsp bytes
  by_cases mask : first.toNat < 0x90
  · exact round_mask (Nat.not_lt.mp vsp) mask bytes
  by_cases spare : first.toNat = 0x9d ∨ first.toNat = 0x9f
  · obtain ⟨executed, touched⟩ := @executeByte_spare memories ucb first spare
    have returns : behind first rest = none := by
      rw [behind, if_neg vsp, if_neg mask, if_pos spare]
    exact .ofReturns returns executed touched ⟨[], bytes.symm⟩
      fun register member => absurd member List.not_mem_nil
  by_cases set : first.toNat < 0xa0
  · exact round_set (Nat.not_lt.mp mask) set spare bytes
  by_cases range : first.toNat < 0xb0
  · exact round_range (Nat.not_lt.mp set) range bytes
  by_cases finish : first.toNat = 0xb0
  · exact round_finish finish bytes
  by_cases low : first.toNat = 0xb1
  · exact round_low low bytes
  · exact round_from (by omega) bytes

end Rounds

theorem endsInPop_cons :
    EndsInPop (first :: rest) ↔
      (first = 0xb1 ∧ rest = []) ∨ ∃ left, behind first rest = some left ∧ EndsInPop left := by
  constructor
  · intro ends
    cases ends with
    | last => exact .inl ⟨rfl, rfl⟩
    | later goes later => exact .inr ⟨_, goes, later⟩
  · rintro (⟨rfl, rfl⟩ | ⟨left, goes, later⟩)
    · exact .last
    · exact .later goes later

theorem byteRegisters_missing (empty : ucb.bytes memories.table = []) :
    31 ∈ byteRegisters memories ((0xb1 : Byte).setWidth 32) ucb := by
  rw [byteRegisters_from (by decide), if_neg (by decide), if_pos (by decide),
    unwindGetNextByte_nil empty]
  refine List.mem_cons_of_mem _ (mem_masked.mpr ⟨31, ?_, ?_, ?_⟩)
  · decide
  · change uint32Max.getLsbD 31 = true
    decide
  · decide

theorem unwindExecuteInstruction_ends {fuel : Nat} {ucb : Ucb}
    (enough : (ucb.bytes memories.table).length < fuel) :
    ∃ result final, unwindExecuteInstruction memories fuel ucb = some (result, final) ∧
      ∃ consumed, ucb.bytes memories.table = consumed ++ final.bytes memories.table := by
  induction fuel generalizing ucb with
  | zero => omega
  | succ fuel ih =>
      cases bytes : ucb.bytes memories.table with
      | nil =>
          refine ⟨0, ucb, ?_, [], bytes.symm⟩
          rw [unwindExecuteInstruction, unwindGetNextByte_nil bytes]
          exact if_pos rfl
      | cons first rest =>
          rw [bytes, List.length_cons] at enough
          obtain ⟨next, read, _, left, _⟩ := unwindGetNextByte_cons bytes
          have round := @round memories next first rest left
          rw [unwindExecuteInstruction, read]
          simp only [if_neg (setWidth_ne_uint32Max first)]
          cases shape : behind first rest with
          | some behindBytes =>
              obtain ⟨after, executed, afterBytes⟩ := round.goes _ shape
              have shorter := behind_length shape
              obtain ⟨taken, split⟩ := behind_append shape
              obtain ⟨result, final, ends, consumed, later⟩ := @ih after (by rw [afterBytes]; omega)
              rw [executed]
              refine ⟨result, final, ends, first :: taken ++ consumed, ?_⟩
              rw [split, ← afterBytes, later, List.cons_append, List.cons_append, List.append_assoc]
          | none =>
              obtain ⟨result, after, executed, consumed, split⟩ := round.returns shape
              rw [executed]
              refine ⟨result, after, rfl, first :: consumed, ?_⟩
              rw [split, List.cons_append]

/-- The indices are those of virtual registers, unless the mask of the last instruction is missing. -/
theorem executedRegisters_lt_iff {fuel : Nat} {ucb : Ucb}
    (enough : (ucb.bytes memories.table).length < fuel) :
    (∀ register ∈ executedRegisters memories fuel ucb, register < 16) ↔
      ¬EndsInPop (ucb.bytes memories.table) := by
  induction fuel generalizing ucb with
  | zero => omega
  | succ fuel ih =>
      cases bytes : ucb.bytes memories.table with
      | nil =>
          rw [executedRegisters, unwindGetNextByte_nil bytes]
          refine iff_of_true (fun register member => ?_) (fun ends => nomatch ends)
          simp at member
      | cons first rest =>
          rw [bytes, List.length_cons] at enough
          obtain ⟨next, read, _, left, _⟩ := unwindGetNextByte_cons bytes
          have round := @round memories next first rest left
          rw [executedRegisters, read, endsInPop_cons, not_or]
          simp only [if_neg (setWidth_ne_uint32Max first), List.forall_mem_append]
          by_cases missing : first = 0xb1 ∧ rest = []
          · obtain ⟨rfl, rfl⟩ := missing
            refine iff_of_false (fun inside => ?_) (fun whole => whole.1 ⟨rfl, rfl⟩)
            have beyond := inside.1 31 (byteRegisters_missing left)
            omega
          · have whole : ¬(first.toNat = 0xb1 ∧ rest = []) := fun both =>
              missing ⟨BitVec.eq_of_toNat_eq both.1, both.2⟩
            have inside := round.inside whole
            cases shape : behind first rest with
            | some behindBytes =>
                obtain ⟨after, executed, afterBytes⟩ := round.goes _ shape
                have shorter := behind_length shape
                have later := @ih after (by rw [afterBytes]; omega)
                rw [executed]
                rw [afterBytes] at later
                simp only [Option.some_inj, exists_eq_left']
                exact ⟨fun both => ⟨missing, later.mp both.2⟩, fun both => ⟨inside, later.mpr both.2⟩⟩
            | none =>
                obtain ⟨result, after, executed, _⟩ := round.returns shape
                rw [executed]
                refine iff_of_true ⟨inside, fun register member => ?_⟩ ⟨missing, ?_⟩
                · exact absurd member List.not_mem_nil
                · rintro ⟨_, some, _⟩
                  cases some

/-- The interpreter ends, consumes at most the announced bytes, and stays with the virtual registers. -/
structure Survives (memories : Memories) (ucb : Ucb) : Prop where
  ends : ∃ result final, unwindExecuteInstruction memories (ucb.remaining + 1) ucb = some (result, final) ∧
    ∃ consumed, ucb.bytes memories.table = consumed ++ final.bytes memories.table ∧
      consumed.length ≤ ucb.remaining
  inside : ∀ register ∈ executedRegisters memories (ucb.remaining + 1) ucb, register < 16

/-- Instructions of any kind are survived, unless they end with an opcode 0xb1 without its mask. -/
theorem survives_iff (memories : Memories) (ucb : Ucb) :
    Survives memories ucb ↔ ¬EndsInPop (ucb.bytes memories.table) := by
  have length : (ucb.bytes memories.table).length = ucb.remaining := bytes_length _ _ _
  have enough := bytes_length_lt ucb memories.table
  obtain ⟨result, final, ends, consumed, split⟩ := unwindExecuteInstruction_ends enough
  have bounded : consumed.length ≤ ucb.remaining := by
    rw [← length, split, List.length_append]
    exact Nat.le_add_right _ _
  constructor
  · intro survives
    exact (executedRegisters_lt_iff enough).mp survives.inside
  · intro whole
    exact ⟨⟨result, final, ends, consumed, split, bounded⟩, (executedRegisters_lt_iff enough).mpr whole⟩

/-- `vsp = vsp + 8; vsp = vsp + 8; pop {…}` as a short description that ends before the mask. -/
def truncated : Memories :=
  { table := fun _ => 0x800101b1, stack := fun _ => 0x20004000 }

theorem truncated_overruns :
    ∃ ucb, unwindControlBlockInit truncated 0 ⟨0x20001000, 0x20001000, 0x10000101, 0x10000100⟩ = some ucb ∧
      ¬Survives truncated ucb ∧
        ∃ final, unwindExecuteInstruction truncated (ucb.remaining + 1) ucb = some (0, final) ∧
          ucb.vrs 16 = 0 ∧ final.vrs 16 = 0x20004000 := by
  refine ⟨_, rfl, ?_, _, rfl, rfl, rfl⟩
  intro survives
  have beyond := survives.inside 31 (by decide)
  omega

end PicoToolkit.Fault
