import PicoToolkit.Fault.Unwinding

/-!
The interpreter on the encodings of instructions: when its registers are those of the ABI.
-/

namespace PicoToolkit.Fault

open Ehabi

variable {memories : Memories}

section Conditions

variable (memory : Word → Word)

def SettledPc (registers : Registers) : Prop :=
  if registers.pcSet then registers.vrs 15 = 0 → registers.vrs 14 = 0
  else registers.vrs 15 ≠ 0 → registers.vrs 15 = registers.vrs 14

instance (registers : Registers) : Decidable (SettledPc registers) :=
  inferInstanceAs (Decidable (if registers.pcSet then registers.vrs 15 = 0 → registers.vrs 14 = 0
    else registers.vrs 15 ≠ 0 → registers.vrs 15 = registers.vrs 14))

/-- What an instruction meets for which the interpreter does what the ABI says: a popped stack pointer is
the one behind the pops, and an operand of 0xb2 has one byte. -/
def Faithful (registers : Registers) : Instruction → Prop
  | .popMask mask =>
      let popped := popAll memory (registers.vrs 13) registers.vrs (masked mask 4)
      13 ∈ masked mask 4 → popped.2 13 = popped.1
  | .addLong _ length => length = 1
  | .refuse => False
  | .finish => SettledPc registers
  | _ => True

/-- Every instruction that is carried out is a faithful one, and the registers at the end are settled. -/
def FaithfulRun : List Instruction → Registers → Prop
  | [], registers => SettledPc registers
  | instruction :: rest, registers =>
      Faithful memory registers instruction ∧
        (instruction ≠ .finish → FaithfulRun rest (instruction.apply memory registers))

end Conditions

/-- The virtual registers behind the instructions are those of the ABI just when they are settled. -/
theorem settlePc_eq_iff (registers : Registers) :
    settlePc registers.vrs = registers.finish ↔ SettledPc registers := by
  obtain ⟨vrs, pcSet⟩ := registers
  cases pcSet with
  | true =>
      simp only [Registers.finish, SettledPc, settlePc, if_pos]
      by_cases zero : vrs 15 = 0
      · rw [if_pos zero, Function.update_eq_self_iff, zero]
        exact ⟨fun same _ => same, fun meets => meets rfl⟩
      · rw [if_neg zero]
        exact ⟨fun _ is => absurd is zero, fun _ => rfl⟩
  | false =>
      simp only [Registers.finish, SettledPc, settlePc, Bool.false_eq_true, if_false]
      by_cases zero : vrs 15 = 0
      · rw [if_pos zero]
        exact ⟨fun _ apart => absurd zero apart, fun _ => rfl⟩
      · rw [if_neg zero, eq_comm, Function.update_eq_self_iff]
        exact ⟨fun same _ => same.symm, fun meets => (meets zero).symm⟩

/-- The instruction has been carried out as the ABI says, and the bytes behind it are to be read next. -/
structure Performs (memories : Memories) (instruction : Instruction) (rest : List Byte)
    (registers : Registers) (next : Ucb) : Prop where
  vrs : next.vrs = (instruction.apply memories.stack registers).vrs
  bytes : next.bytes memories.table = rest

section Performing

variable {instruction : Instruction} {rest : List Byte} {registers : Registers} {ucb : Ucb}

theorem performs_setSp (same : ucb.vrs = registers.vrs) (bytes : ucb.bytes memories.table = rest)
    {vsp : Word} (moves : instruction.apply memories.stack registers = Instruction.setSp registers vsp) :
    Performs memories instruction rest registers (ucb.setReg 13 vsp) := by
  refine ⟨?_, bytes⟩
  rw [moves, Ucb.setReg, Instruction.setSp, same]

theorem performs_pop_iff (bytes : ucb.bytes memories.table = rest) {popped : List Nat}
    (pops : instruction.apply memories.stack registers =
      Instruction.pop memories.stack registers popped) {done : Word × (Nat → Word)}
    (is : popAll memories.stack (registers.vrs 13) registers.vrs popped = done) :
    Performs memories instruction rest registers ({ ucb with vrs := done.2 }.setReg 13 done.1) ↔
      (13 ∈ popped → done.2 13 = done.1) := by
  have stored : ({ ucb with vrs := done.2 }.setReg 13 done.1).vrs = Function.update done.2 13 done.1 := rfl
  have abi : (instruction.apply memories.stack registers).vrs =
      if 13 ∈ popped then done.2 else Function.update done.2 13 done.1 := by
    rw [pops, Instruction.pop, is]
  by_cases within : 13 ∈ popped
  · rw [if_pos within] at abi
    refine ⟨fun performs _ => ?_, fun kept => ⟨?_, bytes⟩⟩
    · have equal := performs.vrs
      rw [stored, abi, Function.update_eq_self_iff] at equal
      exact equal.symm
    · rw [stored, abi, Function.update_eq_self_iff]
      exact (kept within).symm
  · rw [if_neg within] at abi
    exact ⟨fun _ inside => absurd inside within, fun _ => ⟨stored.trans abi.symm, bytes⟩⟩

/-- What the interpreter does with an instruction that neither finishes nor refuses: it goes on, and it has
done what the ABI says just when the instruction is a faithful one. -/
theorem executeByte_decoded {first : Byte} {bytes : List Byte}
    (decoded : decode (first :: bytes) = some (instruction, rest)) (goes : instruction ≠ .finish)
    (accepted : instruction ≠ .refuse) (same : ucb.vrs = registers.vrs)
    (next : ucb.bytes memories.table = bytes) :
    ∃ after, executeByte memories (first.setWidth 32) ucb = .inl after ∧
      (Performs memories instruction rest registers after ↔
        Faithful memories.stack registers instruction) := by
  cases decodes decoded with
  | addVsp upper =>
      refine ⟨_, executeByte_addVsp upper, iff_of_true (performs_setSp same next ?_) trivial⟩
      rw [same, Instruction.apply]
  | subVsp lower upper =>
      refine ⟨_, executeByte_subVsp lower upper, iff_of_true (performs_setSp same next ?_) trivial⟩
      rw [same, Instruction.apply]
  | mask lower upper is =>
      rename_i second mask
      obtain ⟨behind, read, kept, left, _⟩ := unwindGetNextByte_cons next
      by_cases refused : mask = 0
      · rw [if_pos refused] at accepted
        exact absurd rfl accepted
      · have executed := executeByte_popMask lower upper read
        rw [← is] at executed
        rw [kept, same] at executed
        simp only [if_neg refused] at executed ⊢
        have pops : Instruction.apply memories.stack registers (.popMask mask) =
          Instruction.pop memories.stack registers (masked mask 4) := rfl
        exact ⟨_, executed, performs_pop_iff left pops rfl⟩
  | setVsp lower upper plain =>
      refine ⟨_, executeByte_setVsp lower upper plain,
        iff_of_true (performs_setSp same next ?_) trivial⟩
      rw [same, Instruction.apply]
  | popRange lower upper =>
      have small : first.toNat % 16 % 8 < 8 := Nat.mod_lt _ (by decide)
      have pops : Instruction.popped (.popRange (first.toNat % 16 % 8) (8 ≤ first.toNat % 16)) =
          List.range' 4 (first.toNat % 16 % 8 + 1) ++ if 8 ≤ first.toNat % 16 then [14] else [] := by
        simp [Instruction.popped]
      have kept : 13 ∉ Instruction.popped (.popRange (first.toNat % 16 % 8) (8 ≤ first.toNat % 16)) :=
        sp_not_mem_popRange small
      have executed := @executeByte_popRange memories first ucb lower upper
      rw [← pops, same] at executed
      exact ⟨_, executed, (performs_pop_iff next rfl rfl).trans
        (iff_of_true (fun within => absurd within kept) trivial)⟩
  | finish value => exact absurd rfl goes
  | popLow value small =>
      obtain ⟨behind, read, kept, left, _⟩ := unwindGetNextByte_cons next
      have executed := executeByte_popLow value read small
      rw [kept, same] at executed
      refine ⟨_, executed, (performs_pop_iff left rfl rfl).trans (iff_of_true ?_ trivial)⟩
      intro within
      have low := lt_of_mem_masked within
      omega
  | addLong value operand =>
      rename_i uleb128 length
      cases bytes with
      | nil => cases operand
      | cons second bytes =>
          obtain ⟨behind, read, kept, left, _⟩ := unwindGetNextByte_cons next
          refine ⟨_, executeByte_addLong value read, ?_⟩
          constructor
          · intro performs
            have lengths := decodeUleb128_length operand
            have behindBytes := performs.bytes.symm.trans left
            rw [behindBytes, List.length_cons] at lengths
            change length = 1
            omega
          · intro single
            obtain ⟨rfl, rfl⟩ := decodeUleb128_cons operand single
            refine performs_setSp (kept.trans same) left ?_
            rw [kept, same, Instruction.apply]
  | popVfp value =>
      obtain ⟨behind, read, kept, left, _⟩ := unwindGetNextByte_cons next
      refine ⟨_, executeByte_popVfp value read,
        iff_of_true (performs_setSp (kept.trans same) left ?_) trivial⟩
      rw [kept, same, Instruction.apply]
      simp
  | popVfpShort value =>
      refine ⟨_, executeByte_popVfpShort value, iff_of_true (performs_setSp same next ?_) trivial⟩
      rw [same, Instruction.apply]
      simp

end Performing

theorem executeByte_refuse {first : Byte} {bytes rest : List Byte} {ucb : Ucb}
    (decoded : decode (first :: bytes) = some (.refuse, rest))
    (next : ucb.bytes memories.table = bytes) :
    ∃ after, executeByte memories (first.setWidth 32) ucb = .inr (0, after) := by
  have shape := decodes decoded
  generalize refused : Instruction.refuse = instruction at shape
  cases shape with
  | mask lower upper is =>
      rename_i second mask
      by_cases none : mask = 0
      · obtain ⟨behind, read, _⟩ := unwindGetNextByte_cons next
        have executed := executeByte_popMask lower upper read
        rw [← is] at executed
        simp only [if_pos none] at executed
        exact ⟨_, executed⟩
      · rw [if_neg none] at refused
        cases refused
  | _ => cases refused

theorem executeByte_decoded_finish {first : Byte} {bytes rest : List Byte} {ucb : Ucb}
    (decoded : decode (first :: bytes) = some (.finish, rest)) :
    executeByte memories (first.setWidth 32) ucb =
      .inr (0, { ucb with vrs := settlePc ucb.vrs }) := by
  have value : first.toNat = 0xb0 := by
    have shape := decodes decoded
    generalize finished : Instruction.finish = instruction at shape
    cases shape with
    | finish value => exact value
    | mask lower upper is => split at finished <;> cases finished
    | _ => cases finished
  rw [executeByte_finish value, settlePc]
  split <;> rfl

theorem settlePc_settlePc (vrs : Nat → Word) : settlePc (settlePc vrs) = settlePc vrs := by
  by_cases zero : vrs 15 = 0
  · have settled : settlePc vrs = Function.update vrs 15 (vrs 14) := if_pos zero
    have link : (settlePc vrs) 14 = vrs 14 := by rw [settled, Function.update_of_ne (by decide)]
    have pc : (settlePc vrs) 15 = vrs 14 := by rw [settled, Function.update_self]
    rw [settlePc, link, ← pc, Function.update_eq_self, ite_self]
  · have settled : settlePc vrs = vrs := if_neg zero
    rw [settled, settled]

/-- The registers at the end of the instructions are those of the ABI, if every instruction is a faithful
one.  A round of the loop reads a byte at least. -/
theorem unwinds {bytes : List Byte} {instructions : List Instruction} (encoded : Encodes bytes instructions) :
    ∀ {registers : Registers} {ucb : Ucb} {fuel : Nat}, ucb.bytes memories.table = bytes →
      ucb.vrs = registers.vrs → FaithfulRun memories.stack instructions registers → bytes.length < fuel →
      ∃ final, unwindExecuteInstruction memories fuel ucb = some (0, final) ∧
        unwind memories.stack instructions registers = some (settlePc final.vrs) := by
  induction encoded with
  | nil =>
      intro registers ucb fuel next same faithful enough
      cases fuel with
      | zero => omega
      | succ fuel =>
          refine ⟨ucb, ?_, ?_⟩
          · rw [unwindExecuteInstruction, unwindGetNextByte_nil next]
            exact if_pos rfl
          · rw [unwind, same, (settlePc_eq_iff registers).mpr faithful]
  | @cons bytes rest instruction instructions decoded encoded ih =>
      intro registers ucb fuel next same faithful enough
      cases bytes with
      | nil => cases decoded
      | cons first bytes =>
          cases fuel with
          | zero => omega
          | succ fuel =>
              obtain ⟨behind, read, kept, left, _⟩ := unwindGetNextByte_cons next
              have shorter := decode_length decoded
              rw [unwindExecuteInstruction, read]
              simp only [if_neg (setWidth_ne_uint32Max first)]
              by_cases finishes : instruction = .finish
              · subst finishes
                rw [executeByte_decoded_finish decoded]
                refine ⟨_, rfl, ?_⟩
                rw [unwind, settlePc_settlePc, kept, same, (settlePc_eq_iff registers).mpr faithful.1]
              · have accepted : instruction ≠ .refuse := by
                  rintro rfl
                  exact faithful.1
                obtain ⟨after, executed, exact⟩ :=
                  executeByte_decoded decoded finishes accepted (kept.trans same) left
                have performs := exact.mpr faithful.1
                rw [executed]
                obtain ⟨final, result, abi⟩ := ih performs.bytes performs.vrs (faithful.2 finishes)
                  (show rest.length < fuel by omega)
                refine ⟨final, result, ?_⟩
                rw [unwind]
                · exact abi
                · exact finishes
                · exact accepted

/-- The result that the ABI prescribes: the virtual registers, or a failure if unwinding is refused. -/
def Implements (memories : Memories) (ucb : Ucb) (instructions : List Instruction) : Prop :=
  ∃ result final, unwindExecuteInstruction memories (ucb.remaining + 1) ucb = some (result, final) ∧
    match unwind memories.stack instructions { vrs := ucb.vrs } with
    | some vrs => result = 0 ∧ settlePc final.vrs = vrs
    | none => result < 0

def CarriesOut (memories : Memories) (ucb : Ucb) (first : Byte) (instruction : Instruction)
    (rest : List Byte) (registers : Registers) : Prop :=
  match instruction with
  | .finish => ∃ after, executeByte memories (first.setWidth 32) ucb = .inr (0, after) ∧
      settlePc after.vrs = registers.finish
  | .refuse => ∃ result after, executeByte memories (first.setWidth 32) ucb = .inr (result, after) ∧
      result < 0
  | instruction => ∃ after, executeByte memories (first.setWidth 32) ucb = .inl after ∧
      Performs memories instruction rest registers after

theorem carriesOut_iff {first : Byte} {bytes rest : List Byte} {instruction : Instruction}
    {registers : Registers} {ucb : Ucb} (decoded : decode (first :: bytes) = some (instruction, rest))
    (next : ucb.bytes memories.table = bytes) (same : ucb.vrs = registers.vrs) :
    CarriesOut memories ucb first instruction rest registers ↔
      Faithful memories.stack registers instruction := by
  by_cases finishes : instruction = .finish
  · subst finishes
    have executed := @executeByte_decoded_finish memories _ _ _ ucb decoded
    constructor
    · rintro ⟨after, returned, settled⟩
      cases executed.symm.trans returned
      rw [settlePc_settlePc, same] at settled
      exact (settlePc_eq_iff registers).mp settled
    · intro settled
      refine ⟨_, executed, ?_⟩
      rw [settlePc_settlePc, same]
      exact (settlePc_eq_iff registers).mpr settled
  by_cases refuses : instruction = .refuse
  · subst refuses
    obtain ⟨after, executed⟩ := executeByte_refuse decoded next
    refine iff_of_false ?_ id
    rintro ⟨result, other, returned, negative⟩
    cases executed.symm.trans returned
    omega
  obtain ⟨after, executed, exact⟩ := executeByte_decoded decoded finishes refuses same next
  have unfolded : CarriesOut memories ucb first instruction rest registers ↔
      ∃ after, executeByte memories (first.setWidth 32) ucb = .inl after ∧
        Performs memories instruction rest registers after := by
    cases instruction <;> first | rfl | contradiction
  rw [unfolded, ← exact]
  constructor
  · rintro ⟨other, continued, performs⟩
    cases executed.symm.trans continued
    exact performs
  · exact fun performs => ⟨after, executed, performs⟩

/-- Over every description whose instructions are all faithful ones, the interpreter ends with the
registers of the ABI; and an instruction is carried out as the ABI says just when it is a faithful one. -/
theorem unwindExecuteInstruction_conforms (memories : Memories) (ucb : Ucb) :
    (∀ instructions, Encodes (ucb.bytes memories.table) instructions →
      FaithfulRun memories.stack instructions { vrs := ucb.vrs } →
        Implements memories ucb instructions) ∧
      ∀ first bytes rest instruction registers,
        decode (first :: bytes) = some (instruction, rest) → ucb.bytes memories.table = bytes →
          ucb.vrs = registers.vrs →
            (CarriesOut memories ucb first instruction rest registers ↔
              Faithful memories.stack registers instruction) := by
  refine ⟨fun instructions encoded faithful => ?_, fun first bytes rest instruction registers =>
    carriesOut_iff⟩
  obtain ⟨final, executed, abi⟩ := unwinds encoded rfl rfl faithful (bytes_length_lt ucb _)
  refine ⟨0, final, executed, ?_⟩
  rw [abi]
  exact ⟨rfl, rfl⟩

section Runs

def shortDescription (word : Word) : Memories :=
  { table := fun _ => word, stack := fun _ => 0x20004000 }

def frame : Frame := { fp := 0x20001000, sp := 0x20001000, lr := 0x10000101, pc := 0x10000100 }

theorem unwinds_pop :
    ∃ ucb, unwindControlBlockInit (shortDescription 0x8000a8b0) 0 frame = some ucb ∧
      Implements (shortDescription 0x8000a8b0) ucb [.addVsp 0, .popRange 0 true, .finish] := by
  refine ⟨_, rfl, ?_⟩
  refine (unwindExecuteInstruction_conforms _ _).1 _ ?_ ?_
  · exact .cons rfl (.cons rfl (.cons rfl .nil))
  · refine ⟨trivial, fun _ => ⟨trivial, fun _ => ⟨?_, fun goes => absurd rfl goes⟩⟩⟩
    change SettledPc _
    decide

def Deviates (word : Word) (instructions : List Instruction) : Prop :=
  ∃ ucb, unwindControlBlockInit (shortDescription word) 0 frame = some ucb ∧
    Encodes (ucb.bytes (shortDescription word).table) instructions ∧
      ¬Implements (shortDescription word) ucb instructions

/-- Unwinding is not refused, a popped stack pointer is lost, and of an operand of two bytes the second is
taken for an instruction. -/
theorem unwind_deviates :
    Deviates 0x808000b0 [.refuse, .finish] ∧ Deviates 0x808200b0 [.popMask 0x200, .finish] ∧
      Deviates 0x80b28501 [.addLong 133 2] := by
  refine ⟨⟨_, rfl, ?_, ?_⟩, ⟨_, rfl, ?_, ?_⟩, ⟨_, rfl, ?_, ?_⟩⟩
  · exact .cons rfl (.cons rfl .nil)
  · rintro ⟨result, final, executed, abi⟩
    cases executed
    change (0 : Int) < 0 at abi
    omega
  · exact .cons rfl (.cons rfl .nil)
  · rintro ⟨result, final, executed, abi⟩
    cases executed
    have lost := congrFun abi.2 13
    revert lost
    decide
  · exact .cons rfl .nil
  · rintro ⟨result, final, executed, abi⟩
    cases executed
    have beyond := congrFun abi.2 13
    revert beyond
    decide

end Runs

end PicoToolkit.Fault
