import PicoToolkit.Port.Handlers

/-!
What the handlers save and restore.  A scheduler frame lies below the frame of the exception: the return
value of the exception, the control register, and the registers that the hardware does not stack.
-/

namespace PicoToolkit.Port

open Thumb

variable {symbols : Symbols} {link : Word} {before : Machine}

section Addresses

variable {first second address : Word} {core : Fin 2} {index : Nat}

theorem aligned_add (one : Aligned first) (two : Aligned second) : Aligned (first + second) := by
  unfold Aligned at *
  bv_omega

theorem aligned_sub (one : Aligned first) (two : Aligned second) : Aligned (first - second) := by
  unfold Aligned at *
  bv_omega

theorem aligned_wordAt (aligned : Aligned address) : Aligned (wordAt address index) := by
  apply aligned_add aligned
  unfold Aligned
  rw [BitVec.toNat_ofNat]
  omega

theorem aligned_clsDatum (aligned : Aligned address) : Aligned (symbols.clsDatum core address) := by
  have all := symbols.aligned
  refine aligned_add ?_ (aligned_sub aligned (all _ (by simp)))
  unfold Symbols.cls Symbols.clsOf
  split
  · exact all _ (by simp)
  · exact all _ (by simp)

theorem aligned_currentTask : Aligned (symbols.clsDatum core symbols.currentTask) :=
  aligned_clsDatum (symbols.aligned _ (by simp))

theorem aligned_schedulerInitialFrame :
    Aligned (symbols.clsDatum core symbols.schedulerInitialFrame) :=
  aligned_clsDatum (symbols.aligned _ (by simp))

theorem wordAt_sub : wordAt address 10 - 40#32 = address := by
  simp [wordAt, BitVec.add_sub_cancel]

theorem clsDatum_eq : symbols.clsOf (BitVec.ofNat 32 core) + (address - symbols.coreData) =
    symbols.clsDatum core address := rfl

end Addresses

theorem callReadCls_eq : callReadCls symbols before =
    some ((before.set .r0 (symbols.clsOf (before.memory cpuid))).setZero
      (before.memory cpuid = 0#32)) := by
  have aligned : Aligned cpuid := by decide
  unfold callReadCls fuel aeabiReadCls
  by_cases first : before.memory cpuid = 0#32
  · simp [run, exec, aligned, first, after, Symbols.clsOf]
  · simp [run, exec, aligned, first, after, Symbols.clsOf]

@[simp] theorem known_aeabiReadCls : known symbols symbols.aeabiReadCls = some (callReadCls symbols) :=
  if_pos rfl

@[simp] theorem known_schedulerSwitch : known symbols symbols.schedulerSwitch = none :=
  if_neg symbols.switch_apart

def frameWords (exceptionReturn control : Word) (reg : Reg → Word) : List Word :=
  [exceptionReturn, control, reg .r4, reg .r5, reg .r6, reg .r7, reg .r8, reg .r9, reg .r10, reg .r11]

structure Kept (clobbered : List Reg) (before after : Machine) : Prop where
  reg : ∀ register, register ∉ clobbered → after.reg register = before.reg register
  psp : after.psp = before.psp
  unprivileged : after.unprivileged = before.unprivileged

structure Framed (frame : Word) (before after : Machine) : Prop extends
    Kept [.r0, .r4, .r5, .r6, .r7] before after where
  pointer : after.reg .r0 = frame
  memory : after.memory =
    storeWords before.memory frame (frameWords (before.reg .r2) (before.reg .r3) before.reg)
  moved : after.reg .r4 = before.reg .r8 ∧ after.reg .r5 = before.reg .r9 ∧
    after.reg .r6 = before.reg .r10 ∧ after.reg .r7 = before.reg .r11

theorem run_saveFrame {known : Word → Option (Machine → Option Machine)} {code rest : List Instr}
    {fuel : Nat} {frame : Word} {post : Outcome → Prop} (above : before.reg .r0 = wordAt frame 10)
    (aligned : Aligned frame)
    (continues : ∀ after, Framed frame before after → Ends (run known link code fuel rest after) post) :
    Ends (run known link code (fuel + 8) (saveFrame ++ rest) before) post := by
  have middle : Aligned (wordAt frame 6) := aligned_wordAt aligned
  have joined := storeWords_append before.memory frame
    [before.reg .r2, before.reg .r3, before.reg .r4, before.reg .r5, before.reg .r6, before.reg .r7]
    [before.reg .r8, before.reg .r9, before.reg .r10, before.reg .r11]
  simp only [saveFrame, BitVec.ofNat_eq_ofNat, List.cons_append, List.nil_append, run, exec, above,
    wordAt_sub, Machine.setFlags_eq, List.map_cons, List.map_nil, List.length_cons, List.length_nil,
    Nat.zero_add, Nat.reduceAdd, Option.bind_some, Machine.set_reg, reduceCtorEq, ↓reduceIte,
    Machine.set_memory, Machine.setZero_reg, aligned, Machine.setZero_memory,
    Machine.setZero_setMemory, Machine.setZero_set, middle, Machine.setMemory_reg,
    Machine.setMemory_memory, wordAt_wordAt, Machine.set_set, Machine.setZero_setZero]
  apply continues
  refine {
    reg := fun register other => ?_
    psp := rfl
    unprivileged := rfl
    pointer := ?_
    memory := joined.symm
    moved := ?_ }
  · simp only [List.mem_cons, List.not_mem_nil, or_false, not_or] at other
    simp [other]
  · simp
  · simp

def onProcess (exceptionReturn : Word) : Bool := exceptionReturn &&& 4 ≠ 0

theorem tst_four {exceptionReturn : Word} :
    4#32 &&& exceptionReturn = 0#32 ↔ onProcess exceptionReturn = false := by
  simp [onProcess, BitVec.and_comm]

theorem onProcess_exceptionReturn {core : Core} : onProcess core.exceptionReturn = core.process := by
  unfold Core.exceptionReturn
  cases core.process <;> rfl

theorem enter_pointer {core : Core} {memory : Word → Word} :
    (if onProcess ((core.enter memory).reg .lr) then (core.enter memory).psp
      else (core.enter memory).reg .sp) = core.frame := by
  rw [enter_lr, onProcess_exceptionReturn, enter_psp, enter_sp]
  cases core.process <;> rfl

theorem frameWords_congr {exceptionReturn control : Word} {first second : Reg → Word}
    (same : ∀ register ∈ calleeSaved,
      first register = second register) :
    frameWords exceptionReturn control first = frameWords exceptionReturn control second := by
  rw [forall_calleeSaved] at same
  simp only [frameWords, same]

structure Saved (frame : Word) (before after : Machine) : Prop where
  pointer : after.reg .r0 = frame
  memory : after.memory = storeWords before.memory frame
    (frameWords (before.reg .lr) (controlWord before.unprivileged) before.reg)
  sp : after.reg .sp = if onProcess (before.reg .lr) then before.reg .sp else frame
  psp : after.psp = before.psp
  unprivileged : after.unprivileged = before.unprivileged

section PendSv

variable {core : Fin 2}

theorem after_zero : after (pendSvHandler symbols) 0 =
    .label 0 :: .mrs .r0 .msp :: .subSp 40 :: .label 1 :: .mrs .r3 .control ::
      (saveFrame ++ (.label 2 :: .literal .r1 symbols.schedulerSwitch :: .blx .r1 :: restoreFrame)) := rfl

theorem after_one : after (pendSvHandler symbols) 1 =
    .label 1 :: .mrs .r3 .control ::
      (saveFrame ++ (.label 2 :: .literal .r1 symbols.schedulerSwitch :: .blx .r1 :: restoreFrame)) := rfl

theorem after_two : after (pendSvHandler symbols) 2 =
    .label 2 :: .literal .r1 symbols.schedulerSwitch :: .blx .r1 :: restoreFrame := rfl

theorem pendSv_saves (symbols : Symbols) (link : Word) {frame : Word}
    (id : before.memory cpuid = BitVec.ofNat 32 core)
    (current : before.memory (symbols.clsDatum core symbols.currentTask) ≠ 0#32)
    (above : (if onProcess (before.reg .lr) then before.psp else before.reg .sp) = wordAt frame 10)
    (aligned : Aligned frame) :
    Ends (runHandler symbols link (pendSvHandler symbols) before) fun outcome => ∃ after,
      outcome = .call symbols.schedulerSwitch restoreFrame after ∧ Saved frame before after := by
  have word : Aligned (symbols.clsDatum core symbols.currentTask) := aligned_currentTask
  unfold runHandler fuel
  conv =>
    arg 1
    arg 5
    unfold pendSvHandler
  cases process : onProcess (before.reg .lr) with
  | false =>
      rw [process, if_neg Bool.false_ne_true] at above
      simp [run, exec, callReadCls_eq, id, clsDatum_eq, word, current, after_zero, tst_four, process,
        Machine.special]
      refine run_saveFrame (by simpa using above) aligned fun after framed => ?_
      simp [run, exec]
      constructor
      · simp [framed.pointer]
      · simp [framed.memory, frameWords]
      · simp [framed.reg, process, above, wordAt_sub]
      · simp [framed.psp]
      · simp [framed.unprivileged]
  | true =>
      rw [process, if_pos rfl] at above
      simp [run, exec, callReadCls_eq, id, clsDatum_eq, word, current, after_one, tst_four, process,
        Machine.special]
      refine run_saveFrame (by simpa using above) aligned fun after framed => ?_
      simp [run, exec]
      constructor
      · simp [framed.pointer]
      · simp [framed.memory, frameWords]
      · simp [framed.reg, process]
      · simp [framed.psp]
      · simp [framed.unprivileged]

theorem pendSv_skips (symbols : Symbols) (link : Word) (id : before.memory cpuid = BitVec.ofNat 32 core)
    (current : before.memory (symbols.clsDatum core symbols.currentTask) = 0#32) :
    Ends (runHandler symbols link (pendSvHandler symbols) before) fun outcome => ∃ after,
      outcome = .call symbols.schedulerSwitch restoreFrame after ∧ after.memory = before.memory ∧
        after.reg .sp = before.reg .sp := by
  have word : Aligned (symbols.clsDatum core symbols.currentTask) := aligned_currentTask
  unfold runHandler fuel
  conv =>
    arg 1
    arg 5
    unfold pendSvHandler
  simp [run, exec, callReadCls_eq, id, clsDatum_eq, word, current, after_two]

theorem after_three : after (pendSvHandler symbols) 3 =
    [.label 3, .msr .psp .r0, .label 4, .barrier, .bx .r2] := rfl

theorem after_four : after (pendSvHandler symbols) 4 = [.label 4, .barrier, .bx .r2] := rfl

end PendSv

def frameReg (memory : Word → Word) (frame : Word) : Reg → Word
  | .r4 => memory (wordAt frame 2)
  | .r5 => memory (wordAt frame 3)
  | .r6 => memory (wordAt frame 4)
  | .r7 => memory (wordAt frame 5)
  | .r8 => memory (wordAt frame 6)
  | .r9 => memory (wordAt frame 7)
  | .r10 => memory (wordAt frame 8)
  | .r11 => memory (wordAt frame 9)
  | _ => 0

def frameContext (memory : Word → Word) (frame : Word) : Context :=
  unstacked memory (wordAt frame 10) (frameReg memory frame)
    (memory (wordAt frame 1) &&& 1#32 ≠ 0#32) (onProcess (memory frame))

structure Restored (frame : Word) (before after : Machine) : Prop where
  reg : ∀ register ∈ calleeSaved,
    after.reg register = frameReg before.memory frame register
  memory : after.memory = before.memory
  sp : after.reg .sp = if onProcess (before.memory frame) then before.reg .sp else wordAt frame 10
  psp : after.psp = if onProcess (before.memory frame) then wordAt frame 10 else before.psp
  unprivileged : after.unprivileged = decide (before.memory (wordAt frame 1) &&& 1#32 ≠ 0#32)

theorem run_restoreFrame (symbols : Symbols) (link : Word) {frame : Word}
    (pointer : before.reg .r0 = frame) (aligned : Aligned frame) :
    Ends (run (known symbols) link (pendSvHandler symbols) fuel restoreFrame before) fun outcome =>
      ∃ after, outcome = .leave (before.memory frame) after ∧ Restored frame before after := by
  have middle : Aligned (wordAt frame 6) := aligned_wordAt aligned
  have high : frame + 24#32 = wordAt frame 6 := rfl
  have above : wordAt frame 6 + 16#32 = wordAt frame 10 := by
    simp [wordAt, BitVec.add_assoc]
  unfold fuel restoreFrame
  cases process : onProcess (before.memory frame) with
  | false =>
      simp [run, exec, pointer, high, above, middle, loadRegs, aligned, wordAt_sub,
        Machine.setSpecial, tst_four, process, after_four]
      constructor
      · rw [forall_calleeSaved]
        simp [frameReg]
      · simp
      · simp [process]
      · simp [process]
      · simp
  | true =>
      simp [run, exec, pointer, high, above, middle, loadRegs, aligned, wordAt_sub,
        Machine.setSpecial, tst_four, process, after_three]
      constructor
      · rw [forall_calleeSaved]
        simp [frameReg]
      · simp
      · simp [process]
      · simp [process]
      · simp

theorem leave_restored {frame : Word} {after : Machine} (restored : Restored frame before after)
    (return_value : before.memory frame = returnToProcess ∨ before.memory frame = returnToMain) :
    ∃ core, leave (before.memory frame) after = some core ∧
      core.context = frameContext before.memory frame ∧
      core.process = onProcess (before.memory frame) ∧
      (core.process = true → core.reg .sp = before.reg .sp) := by
  have same (process : Bool) (is_process : onProcess (before.memory frame) = process) :
      (unstack after process).context = frameContext before.memory frame := by
    have place : (if process then after.psp else after.reg .sp) = wordAt frame 10 := by
      rw [restored.psp, restored.sp, is_process]
      cases process <;> rfl
    rw [unstack_context, place, restored.memory, restored.unprivileged, ← is_process]
    exact unstacked_congr restored.reg
  rcases return_value with process | main
  · have is_process : onProcess (before.memory frame) = true := by rw [process]; decide
    refine ⟨unstack after true, ?_, same true is_process, is_process.symm, fun _ => ?_⟩
    · rw [process]
      rfl
    · have kept := restored.sp
      rw [is_process, if_pos rfl] at kept
      exact kept
  · have not_process : onProcess (before.memory frame) = false := by rw [main]; decide
    refine ⟨unstack after false, ?_, same false not_process, not_process.symm, fun process => ?_⟩
    · rw [main]
      rfl
    · exact absurd process Bool.false_ne_true

section Services

theorem shift_two {number : Nat} : BitVec.ofNat 32 number <<< 2 = BitVec.ofNat 32 (4 * number) := by
  apply BitVec.eq_of_toNat_eq
  simp only [BitVec.toNat_shiftLeft, BitVec.toNat_ofNat, Nat.shiftLeft_eq]
  omega

/-- A service call is on its way to its handler, with its number and the frame of the call. -/
structure Dispatched (number : Nat) (frame : Word) (before after : Machine) : Prop extends
    Kept [.r0, .r1, .r2, .r3] before after where
  number : after.reg .r0 = BitVec.ofNat 32 number
  frame : after.reg .r1 = frame
  memory : after.memory = before.memory

theorem svc_after_zero : after (svcHandler symbols) 0 =
    [.label 0, .mrs .r1 .psp, .label 1, .ldr .r0 .r1 24, .subImm .r0 .r0 2, .ldrb .r0 .r0,
      .lsl .r3 .r0 2, .literal .r2 symbols.svcVector, .ldrReg .r2 .r2 .r3, .bx .r2] := rfl

theorem svc_after_one : after (svcHandler symbols) 1 =
    [.label 1, .ldr .r0 .r1 24, .subImm .r0 .r0 2, .ldrb .r0 .r0, .lsl .r3 .r0 2,
      .literal .r2 symbols.svcVector, .ldrReg .r2 .r2 .r3, .bx .r2] := rfl

theorem svcHandler_dispatches (symbols : Symbols) (link : Word) {frame : Word} {number : Nat}
    (pointer : (if onProcess (before.reg .lr) then before.psp else before.reg .sp) = frame)
    (aligned : Aligned frame)
    (code : byteAt before.memory (before.memory (wordAt frame 6) - 2#32) = BitVec.ofNat 32 number) :
    Ends (runHandler symbols link (svcHandler symbols) before) fun outcome => ∃ after,
      outcome = .leave (before.memory (wordAt symbols.svcVector number)) after ∧
        Dispatched number frame before after := by
  have return_address : frame + 24#32 = wordAt frame 6 := rfl
  have place : Aligned (wordAt frame 6) := aligned_wordAt aligned
  have entry : symbols.svcVector + BitVec.ofNat 32 (4 * number) = wordAt symbols.svcVector number := rfl
  have table : Aligned (wordAt symbols.svcVector number) :=
    aligned_wordAt (symbols.aligned _ (by simp))
  unfold runHandler fuel
  conv =>
    arg 1
    arg 5
    unfold svcHandler
  cases process : onProcess (before.reg .lr) with
  | false =>
      rw [process, if_neg Bool.false_ne_true] at pointer
      simp [run, exec, tst_four, process, svc_after_one, Machine.special, pointer,
        return_address, place, code, shift_two, entry, table]
      refine {
        reg := fun register other => ?_
        psp := ?_
        unprivileged := ?_
        number := ?_
        frame := ?_
        memory := ?_ }
      · simp only [List.mem_cons, List.not_mem_nil, or_false, not_or] at other
        simp [other]
      · simp
      · simp
      · simp
      · simp
      · simp
  | true =>
      rw [process, if_pos rfl] at pointer
      simp [run, exec, tst_four, process, svc_after_zero, Machine.special, pointer,
        return_address, place, code, shift_two, entry, table]
      refine {
        reg := fun register other => ?_
        psp := ?_
        unprivileged := ?_
        number := ?_
        frame := ?_
        memory := ?_ }
      · simp only [List.mem_cons, List.not_mem_nil, or_false, not_or] at other
        simp [other]
      · simp
      · simp
      · simp
      · simp
      · simp

theorem schedulerSvcHandler_plain (symbols : Symbols) (link : Word) {frame : Word} {number : Nat}
    (called : before.reg .r0 = BitVec.ofNat 32 number) (pointer : before.reg .r1 = frame)
    (plain : before.memory (wordAt symbols.schedulerSvcVector number) &&& 2#32 = 0#32) :
    Ends (runHandler symbols link (schedulerSvcHandler symbols) before) fun outcome => ∃ after,
      outcome = .leave (before.memory (wordAt symbols.schedulerSvcVector number)) after ∧
        Kept [.r0, .r1, .r2] before after ∧ after.reg .r0 = frame ∧
        after.memory = before.memory := by
  have entry : symbols.schedulerSvcVector + BitVec.ofNat 32 (4 * number) =
    wordAt symbols.schedulerSvcVector number := rfl
  have table : Aligned (wordAt symbols.schedulerSvcVector number) :=
    aligned_wordAt (symbols.aligned _ (by simp))
  unfold runHandler fuel
  conv =>
    arg 1
    arg 5
    unfold schedulerSvcHandler
  simp [run, exec, called, shift_two, entry, table, plain, pointer]
  refine ⟨fun register other => ?_, ?_, ?_⟩
  · simp only [List.mem_cons, List.not_mem_nil, or_false, not_or] at other
    simp [other]
  · simp
  · simp

theorem svc_handler_after_zero : after (schedulerSvcHandler symbols) 0 =
    .label 0 :: .bic .r1 .r2 :: .movImm .r3 4 :: .mov .r2 .lr :: .tst .r3 .r2 :: .bne 1 ::
      .subSp 40 :: .label 1 :: .mrs .r3 .control :: (saveFrame ++ [.bx .r1]) := rfl

theorem svc_handler_after_one : after (schedulerSvcHandler symbols) 1 =
    .label 1 :: .mrs .r3 .control :: (saveFrame ++ [.bx .r1]) := rfl

def movedReg (reg : Reg → Word) : Reg → Word
  | .r4 => reg .r8
  | .r5 => reg .r9
  | .r6 => reg .r10
  | .r7 => reg .r11
  | other => reg other

theorem schedulerSvcHandler_framed (symbols : Symbols) (link : Word) {frame : Word} {number : Nat}
    (called : before.reg .r0 = BitVec.ofNat 32 number) (pointer : before.reg .r1 = wordAt frame 10)
    (aligned : Aligned frame)
    (stack : onProcess (before.reg .lr) = false → before.reg .sp = wordAt frame 10)
    (flagged : before.memory (wordAt symbols.schedulerSvcVector number) &&& 2#32 ≠ 0#32) :
    Ends (runHandler symbols link (schedulerSvcHandler symbols) before) fun outcome => ∃ after,
      outcome = .leave (before.memory (wordAt symbols.schedulerSvcVector number) &&& ~~~2#32) after ∧
        Saved frame before after ∧ after.reg .lr = before.reg .lr ∧
        ∀ register ∈ calleeSaved, after.reg register = movedReg before.reg register := by
  have entry : symbols.schedulerSvcVector + BitVec.ofNat 32 (4 * number) =
    wordAt symbols.schedulerSvcVector number := rfl
  have table : Aligned (wordAt symbols.schedulerSvcVector number) :=
    aligned_wordAt (symbols.aligned _ (by simp))
  unfold runHandler fuel
  conv =>
    arg 1
    arg 5
    unfold schedulerSvcHandler
  cases process : onProcess (before.reg .lr) with
  | false =>
      simp [run, exec, called, shift_two, entry, table, flagged, pointer, svc_handler_after_zero,
        tst_four, process, Machine.special]
      refine run_saveFrame (by simp) aligned fun after framed => ?_
      simp [run, framed.reg, framed.moved, forall_calleeSaved, movedReg]
      refine ⟨?_, ?_, ?_, ?_, ?_⟩
      · exact framed.pointer
      · simp [framed.memory, frameWords]
      · simp [framed.reg, process, stack process, wordAt_sub]
      · simp [framed.psp]
      · simp [framed.unprivileged]
  | true =>
      simp [run, exec, called, shift_two, entry, table, flagged, pointer, svc_handler_after_zero,
        svc_handler_after_one, tst_four, process, Machine.special]
      refine run_saveFrame (by simp) aligned fun after framed => ?_
      simp [run, framed.reg, framed.moved, forall_calleeSaved, movedReg]
      refine ⟨?_, ?_, ?_, ?_, ?_⟩
      · exact framed.pointer
      · simp [framed.memory, frameWords]
      · simp [framed.reg, process]
      · simp [framed.psp]
      · simp [framed.unprivileged]

theorem svcHandler0_saves (symbols : Symbols) (link : Word) {core : Fin 2} {frame : Word}
    (id : before.memory cpuid = BitVec.ofNat 32 core)
    (apart : ∀ index < 10, cpuid ≠ wordAt frame index) (above : before.reg .sp = wordAt frame 10)
    (aligned : Aligned frame) :
    Ends (runHandler symbols link (svcHandler0 symbols) before) fun outcome => ∃ after : Machine,
      outcome = .leave (before.reg .lr) after ∧ after.reg .sp = frame ∧
        after.memory = Function.update (Function.update (storeWords before.memory frame
          (frameWords (before.reg .lr) (controlWord before.unprivileged) before.reg))
          (symbols.clsDatum core symbols.schedulerInitialFrame) frame) icsr pendSvSet := by
  have word : Aligned (symbols.clsDatum core symbols.schedulerInitialFrame) :=
    aligned_schedulerInitialFrame
  have register : Aligned icsr := by decide
  unfold runHandler fuel
  conv =>
    arg 1
    arg 5
    unfold svcHandler0
  simp [run, exec, above, Machine.special]
  refine run_saveFrame (by simp) aligned fun after framed => ?_
  have same : after.memory cpuid = BitVec.ofNat 32 core := by
    rw [framed.memory]
    refine Eq.trans (storeWords_other ?_) id
    exact apart
  simp [run, exec, framed.pointer, framed.reg, callReadCls_eq, same, clsDatum_eq, word, register]
  simp [framed.memory, frameWords]

end Services

section Contexts

variable {core : Core} {memory : Word → Word} {frame : Word}

theorem frameContext_saved (above : wordAt frame 10 = core.frame)
    (low : ∀ index < 10, memory (wordAt frame index) =
      (frameWords core.exceptionReturn (controlWord core.unprivileged) core.reg).getD index 0)
    (high : ∀ index < 8, memory (wordAt core.frame index) = core.stacked.getD index 0) :
    frameContext memory frame = core.context := by
  have returned : onProcess (memory frame) = core.process := by
    have word : memory (wordAt frame 0) = core.exceptionReturn := low 0 (by decide)
    rw [wordAt_zero] at word
    rw [word, onProcess_exceptionReturn]
  have control : decide (memory (wordAt frame 1) &&& 1#32 ≠ 0#32) = core.unprivileged := by
    have word : memory (wordAt frame 1) = controlWord core.unprivileged := low 1 (by decide)
    rw [word]
    cases core.unprivileged <;> rfl
  rw [frameContext, above, control, returned]
  apply unstacked_stacked high
  rw [forall_calleeSaved]
  exact ⟨low 2 (by decide), low 3 (by decide), low 4 (by decide), low 5 (by decide),
    low 6 (by decide), low 7 (by decide), low 8 (by decide), low 9 (by decide)⟩

theorem frameContext_congr {changed : Word → Word}
    (same : ∀ index < 18, changed (wordAt frame index) = memory (wordAt frame index)) :
    frameContext changed frame = frameContext memory frame := by
  have returned : changed frame = memory frame := by
    have word := same 0 (by decide)
    rwa [wordAt_zero] at word
  have high : unstacked changed (wordAt frame 10) (frameReg changed frame)
      (changed (wordAt frame 1) &&& 1#32 ≠ 0#32) (onProcess (changed frame)) =
      unstacked memory (wordAt frame 10) (frameReg changed frame)
      (changed (wordAt frame 1) &&& 1#32 ≠ 0#32) (onProcess (changed frame)) := by
    apply unstacked_same
    intro index inside
    rw [wordAt_wordAt]
    exact same _ (by omega)
  unfold frameContext
  rw [high, same 1 (by decide), returned]
  apply unstacked_congr
  rw [forall_calleeSaved]
  exact ⟨same 2 (by decide), same 3 (by decide), same 4 (by decide), same 5 (by decide),
    same 6 (by decide), same 7 (by decide), same 8 (by decide), same 9 (by decide)⟩

end Contexts

end PicoToolkit.Port
