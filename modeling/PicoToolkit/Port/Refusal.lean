import PicoToolkit.Port.Runs

/-!
Where the handlers of the services do what they should not: at a function whose address has the bit of the
flag, and when a service with a scheduler frame refuses its call and returns.
-/

namespace PicoToolkit.Port

open Thumb

section Dispatch

variable {symbols : Symbols} {before : Machine} {frame service : Word}

def tableEntry (service : Word) (frameNeeded : Bool) : Word :=
  if frameNeeded then service ||| 2 else service

theorem tableEntry_bit (frameNeeded : Bool) (bit : service &&& 2#32 ≠ 0#32) :
    tableEntry service frameNeeded &&& 2#32 ≠ 0#32 ∧
      tableEntry service frameNeeded &&& ~~~2#32 ≠ service := by
  constructor
  · cases frameNeeded with
    | false => exact bit
    | true =>
        rw [tableEntry, if_pos rfl, show service ||| 2 = service ||| 2#32 from rfl, or_and_mask]
        decide
  · intro same
    apply bit
    rw [← same, BitVec.and_assoc, show ~~~2#32 &&& 2#32 = 0#32 by decide, BitVec.and_zero]

/-- A service gets its call, with the frame that it expects, just if the address of its function does not
have the bit of the flag. -/
theorem dispatch_exact (link : Word) (number : Nat) (frameNeeded : Bool)
    (called : before.reg .r0 = BitVec.ofNat 32 number) (pointer : before.reg .r1 = wordAt frame 10)
    (aligned : Aligned frame)
    (stack : onProcess (before.reg .lr) = false → before.reg .sp = wordAt frame 10)
    (entry : before.memory (wordAt symbols.schedulerSvcVector number) = tableEntry service frameNeeded) :
    (∃ after, runHandler symbols link (schedulerSvcHandler symbols) before = some (.leave service after) ∧
      after.reg .r0 = if frameNeeded then frame else wordAt frame 10) ↔ service &&& 2 = 0 := by
  by_cases bit : service &&& 2#32 = 0#32
  · refine ⟨fun _ => bit, fun _ => ?_⟩
    cases frameNeeded with
    | false =>
        obtain ⟨last, ends, after, rfl, kept, argument, memory⟩ := schedulerSvcHandler_plain symbols link
          called pointer (by rw [entry]; exact bit)
        rw [entry] at ends
        exact ⟨after, ends, argument⟩
    | true =>
        have flag : tableEntry service true &&& 2#32 ≠ 0#32 := by
          rw [tableEntry, if_pos rfl, show service ||| 2 = service ||| 2#32 from rfl, or_and_mask]
          decide
        obtain ⟨last, ends, after, rfl, saved, -⟩ := schedulerSvcHandler_framed symbols link called
          pointer aligned stack (by rwa [entry])
        rw [entry, tableEntry, if_pos rfl, show service ||| 2 = service ||| 2#32 from rfl,
          or_and_not_mask bit] at ends
        exact ⟨after, ends, saved.pointer⟩
  · refine ⟨fun reaches => ?_, fun clear => absurd clear bit⟩
    obtain ⟨after, handler, argument⟩ := reaches
    obtain ⟨flag, target⟩ := tableEntry_bit frameNeeded bit
    obtain ⟨last, ends, others, rfl, saved, -⟩ := schedulerSvcHandler_framed symbols link called
      pointer aligned stack (by rwa [entry])
    rw [handler, entry] at ends
    exact absurd (Outcome.leave.inj (Option.some.inj ends)).1.symm target

theorem dispatch_exact_bit : ∃ before, ¬∃ after,
    runHandler smallLayout.symbols 0 (schedulerSvcHandler smallLayout.symbols) before =
      some (.leave 0x10001003 after) ∧ after.reg .r0 = 0x20003000 := by
  let before : Machine := {
    reg := fun register => if register = .r0 then 4 else if register = .r1 then 0x20003028 else 0xfffffffd
    psp := 0x20003028
    unprivileged := false
    zero := false
    memory := fun _ => tableEntry 0x10001003 true }
  have aligned : Aligned 0x20003000 := by decide
  have exact_at := dispatch_exact 0 4 true (show before.reg .r0 = 4 from rfl)
    (show before.reg .r1 = wordAt 0x20003000 10 from rfl) aligned (fun main => absurd main (by decide))
    (show before.memory (wordAt smallLayout.symbols.schedulerSvcVector 4) = tableEntry 0x10001003 true
      from rfl)
  exact ⟨before, fun reaches => absurd (exact_at.mp reaches) (by decide)⟩

end Dispatch

section Refused

variable {T : Type} {layout : Layout T} {state : State T} {thread : T} {core : Fin 2}
  {registers after : Core} {number : Fin 9} {served returned : Machine} {value : Word}

theorem movedReg_eq_iff {reg : Reg → Word} :
    (∀ register ∈ calleeSaved, movedReg reg register = reg register) ↔
      reg .r8 = reg .r4 ∧ reg .r9 = reg .r5 ∧ reg .r10 = reg .r6 ∧ reg .r11 = reg .r7 := by
  simp [forall_calleeSaved, movedReg]

structure Refused (layout : Layout T) (state : State T) (core : Fin 2) (registers : Core)
    (number : Fin 9) (value : Word) (after : Core) : Prop where
  flagged : Addresses.flagged number
  refuses : ∃ served returned, Serves layout state.memory core registers number served ∧
    Returns served returned ∧
    returned.memory = Function.update served.memory (wordAt (served.reg .r0) 10) value ∧
    leave (served.reg .lr) returned = some after

theorem framed_stacked (room : layout.bottom thread + 76 ≤ registers.stackPointer.toNat)
    {exceptionReturn control : Word} {reg : Reg → Word} {memory : Word → Word} {index : Nat} (inside : index < 8) :
    storeWords (registers.enter memory).memory (schedulerFrame registers)
      (frameWords exceptionReturn control reg) (wordAt registers.frame index) =
        registers.stacked.getD index 0 := by
  have place := toNat_frame registers (by omega)
  have below := toNat_schedulerFrame registers (by omega)
  have bound := registers.stackPointer.isLt
  have spot : (wordAt registers.frame index).toNat = registers.frame.toNat + 4 * index :=
    toNat_wordAt (by split at place <;> omega)
  have length : (frameWords exceptionReturn control reg).length = 10 := rfl
  rw [storeWords_outside, enter_stacked inside]
  · split at place <;> omega
  · split at place <;> omega

theorem Refused.on_process (well : Well layout state) (ready : Ready layout state core thread registers)
    (refused : Refused layout state core registers number value after)
    (process : registers.process = true) :
    after.context = answer value { registers.context with
      reg := Function.update (movedReg registers.reg) .sp registers.stackPointer } := by
  obtain ⟨served, returned, serves, returns, stored, left⟩ := refused.refuses
  obtain ⟨pointer, written, -, linked, stack, privilege, moved⟩ :=
    serves_flagged well ready refused.flagged serves
  rw [pointer, wordAt_schedulerFrame, written] at stored
  rw [process, if_pos rfl] at stack
  rw [linked, Core.exceptionReturn, process, if_pos rfl] at left
  have resumed : after = unstack returned true := (Option.some.inj left).symm
  let lost : Core := { registers with reg := movedReg registers.reg }
  have preserved : ∀ register ∈ calleeSaved, returned.reg register = lost.reg register :=
    fun register member => (returns.reg register member).trans (moved register member)
  have words : ∀ index < 8, storeWords (registers.enter (seenBy core state.memory)).memory
      (schedulerFrame registers) (frameWords registers.exceptionReturn
        (controlWord registers.unprivileged) registers.reg) (wordAt lost.frame index) =
      lost.stacked.getD index 0 := fun index inside => framed_stacked ready.room inside
  have whole := unstacked_stacked words preserved
  rw [resumed, unstack_context, if_pos rfl, returns.psp, stack, stored, unstacked_answer,
    returns.unprivileged, privilege, ← process]
  exact congrArg (answer value) whole

theorem Refused.on_main (well : Well layout state) (ready : Ready layout state core thread registers)
    (refused : Refused layout state core registers number value after)
    (main : registers.process = false) : after.stackPointer ≠ registers.stackPointer := by
  obtain ⟨served, returned, serves, returns, stored, left⟩ := refused.refuses
  obtain ⟨-, -, stack, linked, -⟩ := serves_flagged well ready refused.flagged serves
  rw [main, if_neg Bool.false_ne_true] at stack
  rw [linked, Core.exceptionReturn, main, if_neg Bool.false_ne_true] at left
  have resumed : after = unstack returned false := (Option.some.inj left).symm
  have place := toNat_frame registers (by have room := ready.room; omega)
  have below := toNat_schedulerFrame registers (by have room := ready.room; omega)
  have popped : after.stackPointer = unstackedPointer returned.memory (schedulerFrame registers) := by
    rw [resumed, ← stack, ← returns.sp]
    rfl
  have room := ready.room
  rw [popped, unstackedPointer]
  intro same
  have numbers := congrArg BitVec.toNat same
  have bound := registers.stackPointer.isLt
  split at numbers <;> split at place <;> bv_omega

theorem refused_keeps_iff (well : Well layout state) (ready : Ready layout state core thread registers)
    (refused : Refused layout state core registers number value after) :
    after.context = answer value registers.context ↔ registers.process = true ∧
      registers.reg .r8 = registers.reg .r4 ∧ registers.reg .r9 = registers.reg .r5 ∧
      registers.reg .r10 = registers.reg .r6 ∧ registers.reg .r11 = registers.reg .r7 := by
  rw [← movedReg_eq_iff]
  cases process : registers.process with
  | false =>
      refine ⟨fun same => ?_, fun both => absurd both.1 Bool.false_ne_true⟩
      exact absurd (congrArg (fun context : Context => context.reg .sp) same)
        (refused.on_main well ready process)
  | true =>
      rw [refused.on_process well ready process]
      refine ⟨fun same => ⟨rfl, fun register member => ?_⟩, fun both => ?_⟩
      · have apart : register ≠ .r0 ∧ register ≠ .sp := by
          revert register
          decide
        have equal := congrArg (fun context : Context => context.reg register) same
        simp only [answer, Core.context, Function.update_of_ne apart.1, Function.update_of_ne apart.2]
          at equal
        exact equal
      · have same : movedReg registers.reg = registers.reg := by
          funext register
          have high := both.2 register
          cases register <;> first | rfl | exact high (by decide)
        rw [same]
        rfl

variable {last : State T} {events : List (Event T)} [DecidableEq T]

/-- A refused call gives its caller back its context just if that caller is on the process stack and has
the same values in the low registers as in the high ones. -/
theorem refusal_exact (initial : Initial layout state) (run : Runs layout state events last)
    (ready : Ready layout last core thread registers)
    (refused : Refused layout last core registers number value after) :
    after.context = answer value registers.context ↔ registers.process = true ∧
      registers.reg .r8 = registers.reg .r4 ∧ registers.reg .r9 = registers.reg .r5 ∧
      registers.reg .r10 = registers.reg .r6 ∧ registers.reg .r11 = registers.reg .r7 :=
  refused_keeps_iff (run_well initial run) ready refused

theorem refusal_exact_small : ∃ after,
    Refused smallLayout smallState 0 (smallCore 0x20041800) 4 (-3) after ∧
    after.context ≠ answer (-3) (smallCore 0x20041800).context := by
  have well := initial_well smallState_initial
  have ready : Ready smallLayout smallState 0 .primordial (smallCore 0x20041800) := ⟨rfl, by decide⟩
  have flagged : Addresses.flagged 4 := .inl rfl
  have calls : Calls smallState 0 (smallCore 0x20041800) 4 := by
    unfold Calls
    decide
  obtain ⟨served, serves⟩ := calls_serves well ready (by decide) calls
  obtain ⟨-, -, -, linked, -⟩ := serves_flagged well ready flagged serves
  let returned := served.setMemory (Function.update served.memory (wordAt (served.reg .r0) 10) (-3))
  have refused : Refused smallLayout smallState 0 (smallCore 0x20041800) 4 (-3)
      (unstack returned false) :=
    ⟨flagged, served, returned, serves, ⟨fun _ _ => rfl, rfl, rfl, rfl⟩, rfl, by rw [linked]; rfl⟩
  refine ⟨_, refused, fun same => ?_⟩
  have process := ((refusal_exact smallState_initial .start ready refused).mp same).1
  exact absurd process Bool.false_ne_true

end Refused

end PicoToolkit.Port
