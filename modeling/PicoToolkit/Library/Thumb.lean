import Mathlib.Algebra.Group.Nat.Defs
import Mathlib.Logic.Function.Basic

/-!
The part of the ARMv6-M instructions that exception handlers are written in.  Memory is a function of
addresses that are multiples of four, since other accesses to words fault; of the flags only the zero flag
is kept, since no other one is tested.  Code is a list of instructions with local labels.
-/

namespace Thumb

abbrev Word : Type := BitVec 32

inductive Reg where
  | r0 | r1 | r2 | r3 | r4 | r5 | r6 | r7 | r8 | r9 | r10 | r11 | r12 | sp | lr
  deriving DecidableEq

inductive Special where
  | msp | psp | control
  deriving DecidableEq

def controlWord : Bool → Word
  | true => 1
  | false => 0

/-- A core in handler mode, where the stack pointer is the main one and `control` tells only whether
threads are unprivileged. -/
structure Machine where
  reg : Reg → Word
  psp : Word
  unprivileged : Bool
  zero : Bool
  memory : Word → Word

namespace Machine

variable (machine : Machine)

def set (target : Reg) (value : Word) : Machine :=
  { machine with reg := Function.update machine.reg target value }

def setZero (zero : Bool) : Machine := { machine with zero := zero }

def setPsp (psp : Word) : Machine := { machine with psp := psp }

def setUnprivileged (unprivileged : Bool) : Machine := { machine with unprivileged := unprivileged }

def setMemory (memory : Word → Word) : Machine := { machine with memory := memory }

def setFlags (target : Reg) (value : Word) : Machine := (machine.set target value).setZero (value = 0)

def special : Special → Word
  | .msp => machine.reg .sp
  | .psp => machine.psp
  | .control => controlWord machine.unprivileged

def setSpecial (value : Word) : Special → Machine
  | .msp => machine.set .sp value
  | .psp => machine.setPsp value
  | .control => machine.setUnprivileged (value &&& 1 ≠ 0)

section Simp

variable (target other : Reg) (value : Word) (zero unprivileged : Bool) (memory : Word → Word)

@[simp] theorem set_reg : (machine.set target value).reg other =
    if other = target then value else machine.reg other := by
  simp [set, Function.update_apply]

@[simp] theorem set_psp : (machine.set target value).psp = machine.psp := rfl
@[simp] theorem set_unprivileged :
    (machine.set target value).unprivileged = machine.unprivileged := rfl
@[simp] theorem set_zero : (machine.set target value).zero = machine.zero := rfl
@[simp] theorem set_memory : (machine.set target value).memory = machine.memory := rfl

@[simp] theorem setZero_reg : (machine.setZero zero).reg = machine.reg := rfl
@[simp] theorem setZero_psp : (machine.setZero zero).psp = machine.psp := rfl
@[simp] theorem setZero_unprivileged :
    (machine.setZero zero).unprivileged = machine.unprivileged := rfl
@[simp] theorem setZero_zero : (machine.setZero zero).zero = zero := rfl
@[simp] theorem setZero_memory : (machine.setZero zero).memory = machine.memory := rfl

@[simp] theorem setPsp_reg : (machine.setPsp value).reg = machine.reg := rfl
@[simp] theorem setPsp_psp : (machine.setPsp value).psp = value := rfl
@[simp] theorem setPsp_unprivileged :
    (machine.setPsp value).unprivileged = machine.unprivileged := rfl
@[simp] theorem setPsp_memory : (machine.setPsp value).memory = machine.memory := rfl

@[simp] theorem setUnprivileged_reg : (machine.setUnprivileged unprivileged).reg = machine.reg := rfl
@[simp] theorem setUnprivileged_psp : (machine.setUnprivileged unprivileged).psp = machine.psp := rfl
@[simp] theorem setUnprivileged_unprivileged :
    (machine.setUnprivileged unprivileged).unprivileged = unprivileged := rfl
@[simp] theorem setUnprivileged_memory :
    (machine.setUnprivileged unprivileged).memory = machine.memory := rfl

@[simp] theorem setMemory_reg : (machine.setMemory memory).reg = machine.reg := rfl
@[simp] theorem setMemory_psp : (machine.setMemory memory).psp = machine.psp := rfl
@[simp] theorem setMemory_unprivileged :
    (machine.setMemory memory).unprivileged = machine.unprivileged := rfl
@[simp] theorem setMemory_zero : (machine.setMemory memory).zero = machine.zero := rfl
@[simp] theorem setMemory_memory : (machine.setMemory memory).memory = memory := rfl

@[simp] theorem setFlags_eq :
    machine.setFlags target value = (machine.set target value).setZero (value = 0) := rfl

@[simp] theorem set_set (first : Word) :
    (machine.set target first).set target value = machine.set target value := by
  simp [set]

@[simp] theorem setZero_set :
    (machine.setZero zero).set target value = (machine.set target value).setZero zero := rfl

@[simp] theorem setZero_setZero (first : Bool) :
    (machine.setZero first).setZero zero = machine.setZero zero := rfl

@[simp] theorem setZero_setMemory :
    (machine.setZero zero).setMemory memory = (machine.setMemory memory).setZero zero := rfl

end Simp

end Machine

def Aligned (address : Word) : Prop := address.toNat % 4 = 0

instance (address : Word) : Decidable (Aligned address) := inferInstanceAs (Decidable (_ = _))

def wordAt (base : Word) (index : Nat) : Word := base + BitVec.ofNat 32 (4 * index)

def storeWords (memory : Word → Word) (base : Word) : List Word → Word → Word
  | [] => memory
  | word :: rest => storeWords (Function.update memory base word) (base + 4) rest

def loadRegs (machine : Machine) (base : Word) : Nat → List Reg → Machine
  | _, [] => machine
  | index, target :: rest =>
      loadRegs (machine.set target (machine.memory (wordAt base index))) base (index + 1) rest

inductive Instr where
  | label (name : Nat)
  | movImm (target : Reg) (value : Word)
  | mov (target source : Reg)
  | add (target first second : Reg)
  | addImm (target source : Reg) (value : Word)
  | sub (target first second : Reg)
  | subImm (target source : Reg) (value : Word)
  | subSp (value : Word)
  | lsl (target source : Reg) (amount : Nat)
  | bic (target source : Reg)
  | tst (first second : Reg)
  | cmpImm (first : Reg) (value : Word)
  | literal (target : Reg) (value : Word)
  | ldr (target base : Reg) (offset : Word)
  | ldrReg (target base offset : Reg)
  | ldrb (target base : Reg)
  | str (source base : Reg) (offset : Word)
  | stm (base : Reg) (sources : List Reg)
  | ldm (base : Reg) (targets : List Reg)
  | push (sources : List Reg)
  | mrs (target : Reg) (source : Special)
  | msr (target : Special) (source : Reg)
  | barrier
  | b (name : Nat)
  | beq (name : Nat)
  | bne (name : Nat)
  | blx (target : Reg)
  | bx (target : Reg)
  deriving DecidableEq

def byteAt (memory : Word → Word) (address : Word) : Word :=
  (memory (address &&& ~~~3) >>> (8 * (address.toNat % 4))) &&& 0xff

def exec (machine : Machine) : Instr → Option Machine
  | .label _ | .barrier => some machine
  | .movImm target value => some (machine.setFlags target value)
  | .mov target source => some (machine.set target (machine.reg source))
  | .add target first second => some (machine.set target (machine.reg first + machine.reg second))
  | .addImm target source value => some (machine.setFlags target (machine.reg source + value))
  | .sub target first second =>
      some (machine.setFlags target (machine.reg first - machine.reg second))
  | .subImm target source value => some (machine.setFlags target (machine.reg source - value))
  | .subSp value => some (machine.set .sp (machine.reg .sp - value))
  | .lsl target source amount => some (machine.setFlags target (machine.reg source <<< amount))
  | .bic target source =>
      some (machine.setFlags target (machine.reg target &&& ~~~(machine.reg source)))
  | .tst first second => some (machine.setZero (machine.reg first &&& machine.reg second = 0))
  | .cmpImm first value => some (machine.setZero (machine.reg first = value))
  | .literal target value => some (machine.set target value)
  | .ldr target base offset =>
      if Aligned (machine.reg base + offset) then
        some (machine.set target (machine.memory (machine.reg base + offset)))
      else none
  | .ldrReg target base offset =>
      if Aligned (machine.reg base + machine.reg offset) then
        some (machine.set target (machine.memory (machine.reg base + machine.reg offset)))
      else none
  | .ldrb target base => some (machine.set target (byteAt machine.memory (machine.reg base)))
  | .str source base offset =>
      if Aligned (machine.reg base + offset) then
        some (machine.setMemory
          (Function.update machine.memory (machine.reg base + offset) (machine.reg source)))
      else none
  | .stm base sources =>
      if Aligned (machine.reg base) then
        some ((machine.setMemory
            (storeWords machine.memory (machine.reg base) (sources.map machine.reg))).set base
          (wordAt (machine.reg base) sources.length))
      else none
  | .ldm base targets =>
      if Aligned (machine.reg base) then
        some ((loadRegs machine (machine.reg base) 0 targets).set base
          (wordAt (machine.reg base) targets.length))
      else none
  | .push sources =>
      let base := machine.reg .sp - BitVec.ofNat 32 (4 * sources.length)
      if Aligned base then
        some ((machine.setMemory (storeWords machine.memory base (sources.map machine.reg))).set .sp
          base)
      else none
  | .mrs target source => some (machine.set target (machine.special source))
  | .msr target source => some (machine.setSpecial (machine.reg source) target)
  | .b _ | .beq _ | .bne _ | .blx _ | .bx _ => none

def after (code : List Instr) (name : Nat) : List Instr := code.dropWhile fun instr => instr ≠ .label name

/-- Where a run of some code ends: at the call of a function, with the code behind it, or at the address that
it branches to in the end. -/
inductive Outcome where
  | call (function : Word) (rest : List Instr) (machine : Machine)
  | leave (target : Word) (machine : Machine)

/-- Run the rest of a code for a number of instructions.  The known functions are called as it goes; calls
of the others end the run.  A call leaves the address behind it in the link register. -/
def run (known : Word → Option (Machine → Option Machine)) (link : Word) (code : List Instr) :
    Nat → List Instr → Machine → Option Outcome
  | 0, _, _ => none
  | _ + 1, [], _ => none
  | fuel + 1, instr :: rest, machine =>
      match instr with
      | .b name => run known link code fuel (after code name) machine
      | .beq name => run known link code fuel (if machine.zero then after code name else rest) machine
      | .bne name => run known link code fuel (if machine.zero then rest else after code name) machine
      | .blx target =>
          match known (machine.reg target) with
          | some function =>
              (function (machine.set .lr link)).bind (run known link code fuel rest)
          | none => some (.call (machine.reg target) rest (machine.set .lr link))
      | .bx target => some (.leave (machine.reg target) machine)
      | instr => (exec machine instr).bind (run known link code fuel rest)

def Ends (outcome : Option Outcome) (post : Outcome → Prop) : Prop :=
  ∃ last, outcome = some last ∧ post last

@[simp] theorem ends_some {last : Outcome} {post : Outcome → Prop} :
    Ends (some last) post ↔ post last := by
  simp [Ends]

section Masks

variable {word mask : Word}

theorem or_and_mask : (word ||| mask) &&& mask = mask := by
  ext bit inside
  simp only [BitVec.getElem_and, BitVec.getElem_or]
  cases word[bit] <;> simp

theorem or_and_not_mask (clear : word &&& mask = 0) : (word ||| mask) &&& ~~~mask = word := by
  ext bit inside
  have here : (word &&& mask)[bit] = false := by simp [clear]
  simp only [BitVec.getElem_and, BitVec.getElem_or, BitVec.getElem_not] at here ⊢
  cases one : word[bit] <;> cases two : mask[bit] <;> simp_all

end Masks

section Memory

variable {memory : Word → Word} {base address : Word} {words : List Word}

@[simp] theorem wordAt_zero : wordAt base 0 = base := by
  simp [wordAt]

theorem wordAt_succ {index : Nat} : wordAt (base + 4) index = wordAt base (index + 1) := by
  unfold wordAt
  rw [Nat.mul_add, BitVec.ofNat_add, BitVec.add_assoc]
  congr 1
  exact BitVec.add_comm _ _

@[simp] theorem wordAt_wordAt {first second : Nat} :
    wordAt (wordAt base first) second = wordAt base (first + second) := by
  unfold wordAt
  rw [BitVec.add_assoc, ← BitVec.ofNat_add, Nat.mul_add]

theorem storeWords_other (other : ∀ index < words.length, address ≠ wordAt base index) :
    storeWords memory base words address = memory address := by
  induction words generalizing memory base with
  | nil => rfl
  | cons word rest ih =>
      have first : address ≠ base := by
        have found := other 0 (Nat.succ_pos _)
        rwa [wordAt_zero] at found
      rw [storeWords, ih, Function.update_of_ne first]
      intro index inside
      rw [wordAt_succ]
      exact other (index + 1) (Nat.succ_lt_succ inside)

theorem toNat_wordAt {index : Nat} (room : base.toNat + 4 * index < 2 ^ 32) :
    (wordAt base index).toNat = base.toNat + 4 * index := by
  have small : 4 * index < 2 ^ 32 := by omega
  rw [wordAt, BitVec.toNat_add, BitVec.toNat_ofNat, Nat.mod_eq_of_lt small, Nat.mod_eq_of_lt room]

theorem storeWords_outside (room : base.toNat + 4 * words.length ≤ 2 ^ 32)
    (outside : address.toNat < base.toNat ∨ base.toNat + 4 * words.length ≤ address.toNat) :
    storeWords memory base words address = memory address := by
  apply storeWords_other
  intro index inside same
  have place : (wordAt base index).toNat = base.toNat + 4 * index := toNat_wordAt (by omega)
  rw [← same] at place
  omega

theorem wordAt_ne_base {index : Nat} (small : index + 1 < 2 ^ 30) :
    base ≠ wordAt base (index + 1) := by
  intro same
  have equal : (BitVec.ofNat 32 (4 * (index + 1))).toNat = 0 := by
    have zero : BitVec.ofNat 32 (4 * (index + 1)) = 0 := by
      unfold wordAt at same
      bv_omega
    rw [zero]
    rfl
  rw [BitVec.toNat_ofNat] at equal
  omega

theorem wordAt_ne {first second : Nat} (less : first < second) (small : second < 2 ^ 30) :
    wordAt base first ≠ wordAt base second := by
  have step : wordAt base second = wordAt (wordAt base first) (second - first - 1 + 1) := by
    rw [wordAt_wordAt]
    congr 1
    omega
  rw [step]
  exact wordAt_ne_base (by omega)

theorem wordAt_inj {first second : Nat} (one : first < 2 ^ 30) (two : second < 2 ^ 30) :
    wordAt base first = wordAt base second ↔ first = second := by
  constructor
  · intro same
    rcases Nat.lt_trichotomy first second with less | equal | more
    · exact absurd same (wordAt_ne less two)
    · exact equal
    · exact absurd same.symm (wordAt_ne more one)
  · rintro rfl
    rfl

theorem storeWords_at {index : Nat} (inside : index < words.length) (small : words.length < 2 ^ 30) :
    storeWords memory base words (wordAt base index) = words.getD index 0 := by
  induction words generalizing memory base index with
  | nil => exact absurd inside (Nat.not_lt_zero index)
  | cons word rest ih =>
      rw [List.length_cons] at inside small
      cases index with
      | zero =>
          rw [wordAt_zero, storeWords, storeWords_other, Function.update_self]
          · rfl
          · intro other below
            rw [wordAt_succ]
            exact wordAt_ne_base (by omega)
      | succ index =>
          rw [← wordAt_succ, storeWords, ih (by omega) (by omega)]
          rfl

theorem storeWords_append (memory : Word → Word) (base : Word) (first second : List Word) :
    storeWords memory base (first ++ second) =
      storeWords (storeWords memory base first) (wordAt base first.length) second := by
  induction first generalizing memory base with
  | nil => rw [List.nil_append, List.length_nil, wordAt_zero]; rfl
  | cons word rest ih =>
      rw [List.cons_append, storeWords, ih, wordAt_succ]
      rfl

end Memory

end Thumb
