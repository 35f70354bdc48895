import PicoToolkit.Library.Thumb

/-!
How a core takes an exception out of thread mode and returns from it.  The frame goes to the stack that the
thread runs on, at a multiple of eight; bit 9 of the program status in the frame tells whether a word was
skipped for that.
-/

namespace Thumb

/-- A core in thread mode.  Register `sp` is the main stack pointer, also where the thread does not use it. -/
structure Core where
  reg : Reg → Word
  psp : Word
  unprivileged : Bool
  process : Bool
  pc : Word
  psr : Word

@[ext] structure Context where
  reg : Reg → Word
  unprivileged : Bool
  process : Bool
  pc : Word
  psr : Word

def calleeSaved : List Reg := [.r4, .r5, .r6, .r7, .r8, .r9, .r10, .r11]

theorem forall_calleeSaved {holds : Reg → Prop} : (∀ register ∈ calleeSaved, holds register) ↔
    holds .r4 ∧ holds .r5 ∧ holds .r6 ∧ holds .r7 ∧ holds .r8 ∧ holds .r9 ∧ holds .r10 ∧ holds .r11 := by
  simp [calleeSaved]

/-- `EXC_RETURN` for threads on the main stack and on the process stack. -/
def returnToMain : Word := 0xfffffff9
def returnToProcess : Word := 0xfffffffd

namespace Core

variable (core : Core)

def stackPointer : Word := if core.process then core.psp else core.reg .sp

def context : Context where
  reg := Function.update core.reg .sp core.stackPointer
  unprivileged := core.unprivileged
  process := core.process
  pc := core.pc
  psr := core.psr &&& ~~~0x200

def padded : Bool := core.stackPointer &&& 4 ≠ 0

def frame : Word := core.stackPointer - if core.padded then 36 else 32

def stackedPsr : Word := if core.padded then core.psr ||| 0x200 else core.psr &&& ~~~0x200

def stacked : List Word :=
  [core.reg .r0, core.reg .r1, core.reg .r2, core.reg .r3, core.reg .r12, core.reg .lr, core.pc,
    core.stackedPsr]

def exceptionReturn : Word := if core.process then returnToProcess else returnToMain

def enter (memory : Word → Word) : Machine where
  reg := Function.update (if core.process then core.reg else Function.update core.reg .sp core.frame)
    .lr core.exceptionReturn
  psp := if core.process then core.frame else core.psp
  unprivileged := core.unprivileged
  zero := false
  memory := storeWords memory core.frame core.stacked

end Core

def unstackedPointer (memory : Word → Word) (frame : Word) : Word :=
  frame + if memory (wordAt frame 7) &&& 0x200 = 0 then 32 else 36

def unstackedReg (memory : Word → Word) (frame : Word) (kept : Reg → Word) : Reg → Word
  | .r0 => memory (wordAt frame 0)
  | .r1 => memory (wordAt frame 1)
  | .r2 => memory (wordAt frame 2)
  | .r3 => memory (wordAt frame 3)
  | .r12 => memory (wordAt frame 4)
  | .lr => memory (wordAt frame 5)
  | .sp => unstackedPointer memory frame
  | other => kept other

def unstacked (memory : Word → Word) (frame : Word) (kept : Reg → Word) (unprivileged process : Bool) :
    Context where
  reg := unstackedReg memory frame kept
  unprivileged := unprivileged
  process := process
  pc := memory (wordAt frame 6)
  psr := memory (wordAt frame 7) &&& ~~~0x200

def unstack (machine : Machine) (process : Bool) : Core :=
  let frame := if process then machine.psp else machine.reg .sp
  let reg := unstackedReg machine.memory frame machine.reg
  { reg := if process then Function.update reg .sp (machine.reg .sp) else reg
    psp := if process then unstackedPointer machine.memory frame else machine.psp
    unprivileged := machine.unprivileged
    process := process
    pc := machine.memory (wordAt frame 6)
    psr := machine.memory (wordAt frame 7) &&& ~~~0x200 }

/-- Return to a thread; other values of `EXC_RETURN` return to a handler or fault. -/
def leave (exceptionReturn : Word) (machine : Machine) : Option Core :=
  if exceptionReturn = returnToProcess then some (unstack machine true)
  else if exceptionReturn = returnToMain then some (unstack machine false)
  else none

section Frames

variable {core : Core} {memory : Word → Word} {machine : Machine}

theorem unstack_context {process : Bool} :
    (unstack machine process).context =
      unstacked machine.memory (if process then machine.psp else machine.reg .sp) machine.reg
        machine.unprivileged process := by
  ext register
  · cases process <;> cases register <;> rfl
  · rfl
  · rfl
  · rfl
  · simp only [Core.context, unstack, unstacked, BitVec.and_assoc, BitVec.and_self]

theorem unstacked_congr {frame : Word} {first second : Reg → Word} {unprivileged process : Bool}
    (same : ∀ register ∈ calleeSaved, first register = second register) :
    unstacked memory frame first unprivileged process =
      unstacked memory frame second unprivileged process := by
  have registers : unstackedReg memory frame first = unstackedReg memory frame second := by
    funext register
    cases register with
    | r4 => exact same .r4 (by decide)
    | r5 => exact same .r5 (by decide)
    | r6 => exact same .r6 (by decide)
    | r7 => exact same .r7 (by decide)
    | r8 => exact same .r8 (by decide)
    | r9 => exact same .r9 (by decide)
    | r10 => exact same .r10 (by decide)
    | r11 => exact same .r11 (by decide)
    | _ => rfl
  unfold unstacked
  rw [registers]

theorem unstacked_same {frame : Word} {changed : Word → Word} {kept : Reg → Word}
    {unprivileged process : Bool}
    (same : ∀ index < 8, changed (wordAt frame index) = memory (wordAt frame index)) :
    unstacked changed frame kept unprivileged process =
      unstacked memory frame kept unprivileged process := by
  have counter := same 6 (by decide)
  have status := same 7 (by decide)
  have pointer : unstackedPointer changed frame = unstackedPointer memory frame := by
    unfold unstackedPointer
    rw [status]
  have registers : unstackedReg changed frame kept = unstackedReg memory frame kept := by
    funext register
    cases register with
    | r0 => exact same 0 (by decide)
    | r1 => exact same 1 (by decide)
    | r2 => exact same 2 (by decide)
    | r3 => exact same 3 (by decide)
    | r12 => exact same 4 (by decide)
    | lr => exact same 5 (by decide)
    | sp => exact pointer
    | _ => rfl
  unfold unstacked
  rw [registers, counter, status]

theorem stackedPsr_padded : core.stackedPsr &&& 0x200 = 0 ↔ core.padded = false := by
  unfold Core.stackedPsr
  cases padded : core.padded with
  | false => simp [BitVec.and_assoc]
  | true =>
      rw [if_pos rfl, or_and_mask]
      decide

theorem stackedPsr_psr : core.stackedPsr &&& ~~~0x200 = core.psr &&& ~~~0x200 := by
  unfold Core.stackedPsr
  split
  · ext bit inside
    simp only [BitVec.getElem_and, BitVec.getElem_or, BitVec.getElem_not]
    cases core.psr[bit] <;> simp
  · rw [BitVec.and_assoc, BitVec.and_self]

/-- A frame holds the context of its thread, but for the registers that handlers have to preserve. -/
theorem unstacked_stacked {kept : Reg → Word}
    (words : ∀ index < 8, memory (wordAt core.frame index) = core.stacked.getD index 0)
    (preserved : ∀ register ∈ calleeSaved,
      kept register = core.reg register) :
    unstacked memory core.frame kept core.unprivileged core.process = core.context := by
  have counter : memory (wordAt core.frame 6) = core.pc := words 6 (by decide)
  have word : memory (wordAt core.frame 7) = core.stackedPsr := words 7 (by decide)
  have pointer : unstackedPointer memory core.frame = core.stackPointer := by
    rw [unstackedPointer, word, Core.frame]
    simp only [stackedPsr_padded]
    cases core.padded <;> simp [BitVec.sub_add_cancel]
  have registers : unstackedReg memory core.frame core.reg = core.context.reg := by
    funext register
    cases register with
    | r0 => exact words 0 (by decide)
    | r1 => exact words 1 (by decide)
    | r2 => exact words 2 (by decide)
    | r3 => exact words 3 (by decide)
    | r12 => exact words 4 (by decide)
    | lr => exact words 5 (by decide)
    | sp => exact pointer
    | _ => rfl
  rw [unstacked_congr preserved]
  unfold unstacked
  rw [registers, counter, word, stackedPsr_psr]
  rfl

theorem toNat_frame (core : Core) (room : 36 ≤ core.stackPointer.toNat) :
    core.frame.toNat = core.stackPointer.toNat - if core.padded then 36 else 32 := by
  unfold Core.frame
  split <;> bv_omega

theorem aligned_frame (aligned : Aligned core.stackPointer) : Aligned core.frame := by
  unfold Core.frame Aligned at *
  split <;> bv_omega

theorem enter_outside {address : Word} (room : 36 ≤ core.stackPointer.toNat)
    (outside : address.toNat < core.frame.toNat ∨ core.stackPointer.toNat ≤ address.toNat) :
    (core.enter memory).memory address = memory address := by
  have place := toNat_frame core room
  have bound := core.stackPointer.isLt
  have length : core.stacked.length = 8 := rfl
  refine storeWords_outside ?_ ?_
  · split at place <;> omega
  · split at place <;> omega

theorem enter_lr : (core.enter memory).reg .lr = core.exceptionReturn := by
  simp [Core.enter]

theorem enter_sp : (core.enter memory).reg .sp = if core.process then core.reg .sp else core.frame := by
  unfold Core.enter
  split <;> simp

theorem enter_psp : (core.enter memory).psp = if core.process then core.frame else core.psp := rfl

theorem enter_reg {register : Reg} (link : register ≠ .lr) (pointer : register ≠ .sp) :
    (core.enter memory).reg register = core.reg register := by
  unfold Core.enter
  split <;> simp [link, pointer]

theorem enter_stacked {index : Nat} (inside : index < 8) :
    (core.enter memory).memory (wordAt core.frame index) = core.stacked.getD index 0 :=
  storeWords_at inside (show 8 < 2 ^ 30 by decide)

end Frames

end Thumb
