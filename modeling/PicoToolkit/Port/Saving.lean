import PicoToolkit.Port.Views

/-!
How a handler puts its thread away: PendSV, the services that need a frame and the call that starts the
scheduler; and the services that return to their caller or end it.
-/

namespace PicoToolkit.Port

open Thumb

variable {T : Type} {layout : Layout T} {state : State T}

section Saving

variable {memory : Word → Word} {thread other : T} {core : Fin 2} {registers : Core}

def schedulerFrame (registers : Core) : Word := registers.frame - 40

structure Stored (layout : Layout T) (state : State T) (core : Fin 2) (thread : T) (registers : Core)
    (memory : Word → Word) : Prop where
  low : ∀ index < 10, memory (wordAt (schedulerFrame registers) index) =
    (frameWords registers.exceptionReturn (controlWord registers.unprivileged) registers.reg).getD index 0
  high : ∀ index < 8, memory (wordAt registers.frame index) = registers.stacked.getD index 0
  frame : ∀ address, ¬Mine layout core thread address → memory address = state.memory address
  above : ∀ address : Word, layout.Within thread address →
    registers.stackPointer.toNat ≤ address.toNat → memory address = state.memory address
  cell : memory (layout.cell thread) = schedulerFrame registers
  current : memory (layout.current core) = 0

theorem wordAt_schedulerFrame : wordAt (schedulerFrame registers) 10 = registers.frame := by
  simp [wordAt, schedulerFrame, BitVec.sub_add_cancel]

theorem toNat_schedulerFrame (registers : Core) (room : 76 ≤ registers.stackPointer.toNat) :
    (schedulerFrame registers).toNat = registers.frame.toNat - 40 := by
  have place := toNat_frame registers (by omega)
  unfold schedulerFrame
  split at place <;> bv_omega

theorem aligned_schedulerFrame (aligned : Aligned registers.stackPointer) :
    Aligned (schedulerFrame registers) :=
  aligned_sub (aligned_frame aligned) (by decide)

theorem seenBy_of_ne {address : Word} (apart : address ≠ layout.place .cpuid) :
    seenBy core memory address = memory address :=
  Function.update_of_ne apart _ _

theorem within_of_bounds {address : Word} (well : RunsWell layout state core thread registers)
    (room : layout.bottom thread + 76 ≤ registers.stackPointer.toNat)
    (low : (schedulerFrame registers).toNat ≤ address.toNat)
    (high : address.toNat < registers.stackPointer.toNat) : layout.Within thread address := by
  have place := toNat_frame registers (by omega)
  have below := toNat_schedulerFrame registers (by omega)
  have upper := well.upper
  constructor
  · split at place <;> omega
  · omega

theorem beyond_of_foreign {address : Word} (well : RunsWell layout state core thread registers)
    (room : layout.bottom thread + 76 ≤ registers.stackPointer.toNat)
    (foreign : ¬layout.Within thread address) :
    address.toNat < (schedulerFrame registers).toNat ∨
      registers.stackPointer.toNat ≤ address.toNat := by
  by_cases low : address.toNat < (schedulerFrame registers).toNat
  · exact .inl low
  · by_cases high : registers.stackPointer.toNat ≤ address.toNat
    · exact .inr high
    · exact absurd (within_of_bounds well room (by omega) (by omega)) foreign

theorem framed_word (well : RunsWell layout state core thread registers)
    (room : layout.bottom thread + 76 ≤ registers.stackPointer.toNat) {index : Nat}
    (inside : index < 10) : layout.Within thread (wordAt (schedulerFrame registers) index) := by
  have place := toNat_frame registers (by omega)
  have below := toNat_schedulerFrame registers (by omega)
  have bound := registers.stackPointer.isLt
  have spot : (wordAt (schedulerFrame registers) index).toNat =
    (schedulerFrame registers).toNat + 4 * index := toNat_wordAt (by split at place <;> omega)
  exact within_of_bounds well room (by omega) (by split at place <;> omega)

theorem stored_of_writes (well : RunsWell layout state core thread registers)
    (room : layout.bottom thread + 76 ≤ registers.stackPointer.toNat)
    (same : ∀ address, address ≠ layout.cell thread → address ≠ layout.current core →
      address ≠ icsr → memory address =
        storeWords (registers.enter (seenBy core state.memory)).memory (schedulerFrame registers)
          (frameWords registers.exceptionReturn (controlWord registers.unprivileged) registers.reg)
          address)
    (cell : memory (layout.cell thread) = schedulerFrame registers)
    (current : memory (layout.current core) = 0) :
    Stored layout state core thread registers memory := by
  have place := toNat_frame registers (by omega)
  have below := toNat_schedulerFrame registers (by omega)
  have bound := registers.stackPointer.isLt
  have inside {address : Word} (within : layout.Within thread address) :
      memory address = storeWords (registers.enter (seenBy core state.memory)).memory
        (schedulerFrame registers)
        (frameWords registers.exceptionReturn (controlWord registers.unprivileged) registers.reg)
        address := by
    apply same <;> rintro rfl
    · exact layout.outside (.cell thread) _ within
    · exact layout.outside (.current core) _ within
    · exact layout.outside .icsr _ within
  have outside {address : Word} (apart : address ≠ layout.place .cpuid)
      (beyond : address.toNat < (schedulerFrame registers).toNat ∨
        registers.stackPointer.toNat ≤ address.toNat) :
      storeWords (registers.enter (seenBy core state.memory)).memory (schedulerFrame registers)
        (frameWords registers.exceptionReturn (controlWord registers.unprivileged) registers.reg)
        address = state.memory address := by
    have length : (frameWords registers.exceptionReturn (controlWord registers.unprivileged)
      registers.reg).length = 10 := rfl
    rw [storeWords_outside, enter_outside (by omega), seenBy_of_ne apart]
    · split at place <;> omega
    · split at place <;> omega
    · split at place <;> omega
  refine ⟨fun index small => ?_, fun index small => ?_, fun address foreign => ?_,
    fun address within high => ?_, cell, current⟩
  · rw [inside (framed_word well room small)]
    exact storeWords_at small (show 10 < 2 ^ 30 by decide)
  · have spot : (wordAt registers.frame index).toNat = registers.frame.toNat + 4 * index :=
      toNat_wordAt (by split at place <;> omega)
    rw [inside (within_of_bounds well room (by omega) (by split at place <;> omega)),
      storeWords_outside, enter_stacked small]
    · change (schedulerFrame registers).toNat + 4 * 10 ≤ 2 ^ 32
      split at place <;> omega
    · change _ ∨ (schedulerFrame registers).toNat + 4 * 10 ≤ _
      split at place <;> omega
  · have beyond := beyond_of_foreign well room fun within => foreign (.stack within)
    rw [same address (fun equal => foreign (.cell equal)) (fun equal => foreign (.current equal))
      (fun equal => foreign (.icsr equal))]
    exact outside (fun equal => foreign (.cpuid equal)) beyond
  · rw [inside within]
    refine outside ?_ (.inr high)
    rintro rfl
    exact layout.outside _ _ within

theorem cell_ne_current : layout.cell thread ≠ layout.current core :=
  layout.separate.ne (show Place.cell thread ≠ .current core by simp)

theorem cell_ne_icsr : layout.cell thread ≠ icsr :=
  layout.separate.ne (show Place.cell thread ≠ .icsr by simp)

theorem current_ne_icsr : layout.current core ≠ icsr :=
  layout.separate.ne (show Place.current core ≠ .icsr by simp)

theorem cpuid_ne_cell : cpuid ≠ layout.cell thread :=
  layout.separate.ne (show Place.cpuid ≠ .cell thread by simp)

theorem cpuid_ne_current : cpuid ≠ layout.current core :=
  layout.separate.ne (show Place.cpuid ≠ .current core by simp)

theorem Stored.keeps (stored : Stored layout state core thread registers memory)
    (well : RunsWell layout state core thread registers)
    (room : layout.bottom thread + 76 ≤ registers.stackPointer.toNat) :
    frameContext memory (schedulerFrame registers) = registers.context ∧
      KeptWell layout memory thread (schedulerFrame registers) := by
  have context := frameContext_saved wordAt_schedulerFrame stored.low stored.high
  have place := toNat_frame registers (by omega)
  have below := toNat_schedulerFrame registers (by omega)
  have pointer : (frameContext memory (schedulerFrame registers)).reg .sp = registers.stackPointer := by
    rw [context]
    rfl
  refine ⟨context, aligned_schedulerFrame well.aligned, ?_, ?_, ?_, ?_, ?_⟩
  · split at place <;> omega
  · rw [pointer]
    exact well.aligned
  · rw [pointer]
    split at place <;> omega
  · rw [pointer]
    exact well.upper
  · have word : memory (wordAt (schedulerFrame registers) 0) = registers.exceptionReturn :=
      stored.low 0 (by decide)
    rw [wordAt_zero] at word
    rw [word, Core.exceptionReturn, well.process, returnValue]
    cases layout.home thread <;> rfl

theorem home_none (only : ∀ place, layout.home thread = some place → place = core)
    (home : layout.home other = some core) (different : other ≠ thread) : layout.home thread = none := by
  cases own : layout.home thread with
  | none => rfl
  | some place =>
      have here := only place own
      exact absurd (layout.one_home other thread core home (here ▸ own)) different

/-- A core whose main stack holds the frame of a kept thread runs its own thread on another stack. -/
theorem RunsWell.on_process (well : RunsWell layout state core thread registers)
    (home : layout.home other = some core) (different : other ≠ thread) : registers.process = true := by
  rw [well.process, home_none well.home home different]
  rfl

theorem RunsWell.shown (well : RunsWell layout state core thread registers)
    (running : state.core core = .running thread registers) {shown : Option View}
    (shows_as : ShowsAs layout state thread shown) :
    shown = some (viewOf layout state.memory thread registers.context) := by
  cases shown with
  | none => exact absurd running (shows_as.2 core registers)
  | some view =>
      rcases shows_as with ⟨elsewhere, others, runs, rfl⟩ | ⟨waits, _⟩
      · have here := well.alone elsewhere others runs
        subst here
        rw [running] at runs
        cases runs
        rfl
      · exact absurd waits well.unkept

theorem keep_refines [DecidableEq T] {contexts : Contexts T} {machine : Machine}
    (well : Well layout state) (refines : Refines layout state contexts)
    (ready : Ready layout state core thread registers)
    (stored : Stored layout state core thread registers memory)
    (main : registers.process = false → machine.reg .sp = schedulerFrame registers)
    (process : registers.process = true → machine.reg .sp = registers.reg .sp) :
    Well layout (state.keep core thread memory restoreFrame machine) ∧
      Refines layout (state.keep core thread memory restoreFrame machine) contexts := by
  have runs_well := (well.thread thread).running core registers ready.running
  obtain ⟨context, kept_well⟩ := stored.keeps runs_well ready.room
  have step : CoreStep layout state (state.keep core thread memory restoreFrame machine) core thread := {
    frame := stored.frame
    elsewhere := fun other different => Function.update_of_ne different _ _
    kept := fun other different => by simp [State.keep, different]
    before := fun other different others => running_other ready.running different
    after := fun other different others => by simp [State.keep]
    main := fun other different home => by
      simp only [State.keep, Function.update_self, ready.running, Mode.main]
      exact process (runs_well.on_process home different)
    switching := fun rest others stops => by
      simp only [State.keep, Function.update_self, Mode.switching.injEq] at stops
      exact ⟨stops.1.symm, stored.current⟩ }
  have own : ThreadWell layout (state.keep core thread memory restoreFrame machine) thread := by
    refine ⟨fun elsewhere others runs => ?_, fun _ => ?_, fun _ elsewhere home => ?_⟩
    · have here := step.alone runs_well.alone elsewhere others runs
      subst here
      simp [State.keep] at runs
    · simp only [State.keep, stored.cell]
      exact kept_well
    · have here := runs_well.home elsewhere home
      subst here
      simp only [State.keep, Function.update_self, stored.cell, Mode.main]
      apply main
      rw [runs_well.process, home]
      rfl
  have shown : ShowsAs layout (state.keep core thread memory restoreFrame machine) thread
      (contexts thread) := by
    rw [runs_well.shown ready.running (refines thread)]
    refine .inr ⟨.inl rfl, ?_⟩
    simp only [State.keep, stored.cell, context]
    symm
    exact viewOf_congr fun address low high =>
      stored.above address ⟨Nat.le_trans runs_well.lower low, high⟩ low
  have whole := (step.threadStep well).refines well refines own shown
  rwa [Function.update_eq_self] at whole

theorem entered_outside (well : RunsWell layout state core thread registers)
    (room : layout.bottom thread + 76 ≤ registers.stackPointer.toNat) (place : Place T) :
    (registers.enter (seenBy core state.memory)).memory (layout.place place) =
      seenBy core state.memory (layout.place place) := by
  have spot := toNat_frame registers (by omega)
  have below := toNat_schedulerFrame registers (by omega)
  apply enter_outside (by omega)
  exact (beyond_of_foreign well room (layout.outside place thread)).imp_left (by omega)

theorem entered_cpuid (well : RunsWell layout state core thread registers)
    (room : layout.bottom thread + 76 ≤ registers.stackPointer.toNat) :
    (registers.enter (seenBy core state.memory)).memory cpuid = BitVec.ofNat 32 core := by
  have entered := entered_outside well room .cpuid
  rwa [seenBy, show layout.place .cpuid = cpuid from rfl, Function.update_self] at entered

theorem entered_place (well : RunsWell layout state core thread registers)
    (room : layout.bottom thread + 76 ≤ registers.stackPointer.toNat) (place : Place T)
    (apart : place ≠ .cpuid) :
    (registers.enter (seenBy core state.memory)).memory (layout.place place) =
      state.memory (layout.place place) :=
  (entered_outside well room place).trans (seenBy_of_ne (layout.separate.ne apart))

theorem entered_entry (well : Well layout state) (runs_well : RunsWell layout state core thread registers)
    (room : layout.bottom thread + 76 ≤ registers.stackPointer.toNat) (table : Table) (number : Fin 9) :
    (registers.enter (seenBy core state.memory)).memory (wordAt (layout.table table) number) =
      layout.entry table number :=
  (entered_place runs_well room (.entry table number) (by simp)).trans (well.table table number)

theorem entered_foreign (well : RunsWell layout state core thread registers)
    (room : layout.bottom thread + 76 ≤ registers.stackPointer.toNat) {address : Word}
    (foreign : ¬Mine layout core thread address) :
    (registers.enter (seenBy core state.memory)).memory address = state.memory address := by
  have spot := toNat_frame registers (by omega)
  have below := toNat_schedulerFrame registers (by omega)
  rw [enter_outside (by omega), seenBy_of_ne fun same => foreign (.cpuid same)]
  exact (beyond_of_foreign well room fun within => foreign (.stack within)).imp_left (by omega)

theorem enter_frameWords {exceptionReturn control : Word} {memory : Word → Word} :
    frameWords exceptionReturn control (registers.enter memory).reg =
      frameWords exceptionReturn control registers.reg := by
  apply frameWords_congr
  rw [forall_calleeSaved]
  refine ⟨?_, ?_, ?_, ?_, ?_, ?_, ?_, ?_⟩ <;> exact enter_reg (by decide) (by decide)

theorem preempted_saves (well : Well layout state) (ready : Ready layout state core thread registers)
    (task : layout.address thread ≠ 0) (link : Word) :
    ∃ machine, runHandler layout.symbols link (pendSvHandler layout.symbols)
      (registers.enter (seenBy core state.memory)) =
        some (.call layout.symbols.schedulerSwitch restoreFrame machine) ∧
      Saved (schedulerFrame registers) (registers.enter (seenBy core state.memory)) machine := by
  have runs_well := (well.thread thread).running core registers ready.running
  have current : (registers.enter (seenBy core state.memory)).memory (layout.current core) ≠ 0#32 := by
    intro zero
    have entered := entered_place runs_well ready.room (.current core) (by simp)
    exact task (runs_well.current.symm.trans (entered.symm.trans zero))
  have above : (if onProcess ((registers.enter (seenBy core state.memory)).reg .lr) then
      (registers.enter (seenBy core state.memory)).psp
      else (registers.enter (seenBy core state.memory)).reg .sp) =
        wordAt (schedulerFrame registers) 10 := by
    rw [enter_pointer, wordAt_schedulerFrame]
  obtain ⟨last, ends, machine, rfl, saved⟩ := pendSv_saves layout.symbols link
    (entered_cpuid runs_well ready.room) current above (aligned_schedulerFrame runs_well.aligned)
  exact ⟨machine, ends, saved⟩

theorem preempted_refines [DecidableEq T] {contexts : Contexts T} {link : Word} {rest : List Instr}
    {machine : Machine} (well : Well layout state) (refines : Refines layout state contexts)
    (ready : Ready layout state core thread registers) (task : layout.address thread ≠ 0)
    (handler : runHandler layout.symbols link (pendSvHandler layout.symbols)
      (registers.enter (seenBy core state.memory)) =
        some (.call layout.symbols.schedulerSwitch rest machine))
    (stores : memory = Function.update
      (Function.update machine.memory (layout.cell thread) (machine.reg .r0)) (layout.current core) 0) :
    Well layout (state.keep core thread memory rest machine) ∧
      Refines layout (state.keep core thread memory rest machine) contexts := by
  have runs_well := (well.thread thread).running core registers ready.running
  obtain ⟨after, ends, saved⟩ := preempted_saves well ready task link
  rw [handler] at ends
  cases ends
  have written := saved.memory
  rw [enter_lr, enter_frameWords] at written
  refine keep_refines well refines ready ?_ ?_ ?_
  · refine stored_of_writes runs_well ready.room ?_ ?_ ?_
    · intro address cell current _
      rw [stores, Function.update_of_ne current, Function.update_of_ne cell, written]
      rfl
    · rw [stores, Function.update_of_ne cell_ne_current, Function.update_self]
      exact saved.pointer
    · rw [stores, Function.update_self]
  · intro main
    have pointer := saved.sp
    rw [enter_lr, onProcess_exceptionReturn, main] at pointer
    exact pointer
  · intro process
    have pointer := saved.sp
    rw [enter_lr, onProcess_exceptionReturn, process, enter_sp, process] at pointer
    exact pointer

theorem framed_place (well : RunsWell layout state core thread registers)
    (room : layout.bottom thread + 76 ≤ registers.stackPointer.toNat) (place : Place T)
    {memory : Word → Word} {exceptionReturn control : Word} {reg : Reg → Word} :
    storeWords memory (schedulerFrame registers) (frameWords exceptionReturn control reg)
      (layout.place place) = memory (layout.place place) := by
  have spot := toNat_frame registers (by omega)
  have below := toNat_schedulerFrame registers (by omega)
  have bound := registers.stackPointer.isLt
  apply storeWords_outside
  · change (schedulerFrame registers).toNat + 4 * 10 ≤ 2 ^ 32
    split at spot <;> omega
  · change _ ∨ (schedulerFrame registers).toNat + 4 * 10 ≤ _
    by_cases low : (layout.place place).toNat < (schedulerFrame registers).toNat
    · exact .inl low
    · by_cases high : registers.stackPointer.toNat ≤ (layout.place place).toNat
      · right
        split at spot <;> omega
      · exact absurd (within_of_bounds well room (by omega) (by omega)) (layout.outside place thread)

section Services

variable {number : Fin 9} {served : Machine}

theorem entry_flagged (layout : Layout T) (flagged : Addresses.flagged number) :
    layout.entry .schedulerSvcVector number &&& 2#32 ≠ 0#32 ∧
      layout.entry .schedulerSvcVector number &&& ~~~2#32 = layout.service number := by
  rw [Addresses.entry, if_pos flagged]
  refine ⟨?_, or_and_not_mask (layout.multiple number)⟩
  intro zero
  rw [show layout.service number ||| 2 = layout.service number ||| 2#32 from rfl, or_and_mask] at zero
  exact absurd zero (by decide)

theorem entry_plain (layout : Layout T) (plain : ¬Addresses.flagged number) :
    layout.entry .schedulerSvcVector number = layout.service number ∧
      layout.entry .schedulerSvcVector number &&& 2#32 = 0#32 := by
  rw [Addresses.entry, if_neg plain]
  exact ⟨rfl, layout.multiple number⟩

theorem dispatched_of_code (number : Nat) {link target : Word} {called : Machine}
    (code : byteAt (registers.enter (seenBy core state.memory)).memory (registers.pc - 2#32) =
      BitVec.ofNat 32 number)
    (aligned : Aligned registers.stackPointer)
    (handler : runHandler layout.symbols link (svcHandler layout.symbols)
      (registers.enter (seenBy core state.memory)) = some (.leave target called)) :
    Dispatched number registers.frame (registers.enter (seenBy core state.memory)) called := by
  have counter : (registers.enter (seenBy core state.memory)).memory (wordAt registers.frame 6) =
    registers.pc := enter_stacked (by decide)
  obtain ⟨last, ends, after, same, dispatched⟩ := svcHandler_dispatches layout.symbols link
    enter_pointer (aligned_frame aligned) (by rwa [counter])
  rw [handler] at ends
  cases ends
  cases same
  exact dispatched

theorem serves_plain (well : Well layout state) (ready : Ready layout state core thread registers)
    (plain : ¬Addresses.flagged number)
    (serves : Serves layout state.memory core registers number served) :
    Kept [.r0, .r1, .r2, .r3] (registers.enter (seenBy core state.memory)) served ∧
      served.reg .r0 = registers.frame ∧
      served.memory = (registers.enter (seenBy core state.memory)).memory := by
  have runs_well := (well.thread thread).running core registers ready.running
  obtain ⟨link, called, dispatch, handler⟩ := serves.reaches
  have dispatched := dispatched_of_code number serves.code runs_well.aligned dispatch
  have entry : called.memory (wordAt layout.symbols.schedulerSvcVector number) =
      layout.entry .schedulerSvcVector number := by
    rw [dispatched.memory]
    exact entered_entry well runs_well ready.room .schedulerSvcVector number
  obtain ⟨last, ends, after, same, kept, pointer, memory⟩ := schedulerSvcHandler_plain layout.symbols
    link dispatched.number dispatched.frame (by rw [entry]; exact (entry_plain layout plain).2)
  rw [handler] at ends
  cases ends
  obtain ⟨-, rfl⟩ := Outcome.leave.inj same
  refine ⟨⟨fun register other => ?_, ?_, ?_⟩, pointer, memory.trans dispatched.memory⟩
  · rw [kept.reg register (by simp_all), dispatched.reg register other]
  · rw [kept.psp, dispatched.psp]
  · rw [kept.unprivileged, dispatched.unprivileged]

theorem calleeSaved_apart : ∀ register ∈ calleeSaved,
    register ∉ [Reg.r0, .r1, .r2, .r3] ∧ register ≠ .lr ∧ register ≠ .sp := by
  decide

theorem serves_flagged (well : Well layout state) (ready : Ready layout state core thread registers)
    (flagged : Addresses.flagged number)
    (serves : Serves layout state.memory core registers number served) :
    served.reg .r0 = schedulerFrame registers ∧
      served.memory = storeWords (registers.enter (seenBy core state.memory)).memory
        (schedulerFrame registers)
        (frameWords registers.exceptionReturn (controlWord registers.unprivileged) registers.reg) ∧
      served.reg .sp = (if registers.process then registers.reg .sp else schedulerFrame registers) ∧
      served.reg .lr = registers.exceptionReturn ∧
      served.psp = (if registers.process then registers.frame else registers.psp) ∧
      served.unprivileged = registers.unprivileged ∧
      ∀ register ∈ calleeSaved, served.reg register = movedReg registers.reg register := by
  have runs_well := (well.thread thread).running core registers ready.running
  obtain ⟨link, called, dispatch, handler⟩ := serves.reaches
  have dispatched := dispatched_of_code number serves.code runs_well.aligned dispatch
  have entry : called.memory (wordAt layout.symbols.schedulerSvcVector number) =
      layout.entry .schedulerSvcVector number := by
    rw [dispatched.memory]
    exact entered_entry well runs_well ready.room .schedulerSvcVector number
  have linked : called.reg .lr = registers.exceptionReturn :=
    (dispatched.reg .lr (by decide)).trans enter_lr
  have stack : called.reg .sp = if registers.process then registers.reg .sp else registers.frame :=
    (dispatched.reg .sp (by decide)).trans enter_sp
  obtain ⟨last, ends, after, same, saved, returned, moved⟩ := schedulerSvcHandler_framed layout.symbols
    link dispatched.number (dispatched.frame.trans wordAt_schedulerFrame.symm)
    (aligned_schedulerFrame runs_well.aligned)
    (by
      rw [linked, onProcess_exceptionReturn, stack, wordAt_schedulerFrame]
      intro main
      rw [main, if_neg Bool.false_ne_true])
    (by rw [entry]; exact (entry_flagged layout flagged).1)
  rw [handler] at ends
  cases ends
  obtain ⟨-, rfl⟩ := Outcome.leave.inj same
  refine ⟨saved.pointer, ?_, ?_, returned.trans linked, ?_, ?_, fun register member => ?_⟩
  · have same : ∀ register ∈ calleeSaved, called.reg register = _ := fun register member =>
      dispatched.reg register (calleeSaved_apart register member).1
    rw [saved.memory, dispatched.memory, linked, dispatched.unprivileged, frameWords_congr same,
      enter_frameWords]
    rfl
  · have pointer := saved.sp
    rw [linked, onProcess_exceptionReturn, stack] at pointer
    rw [pointer]
    cases registers.process <;> rfl
  · rw [saved.psp, dispatched.psp, enter_psp]
  · rw [saved.unprivileged, dispatched.unprivileged]
    rfl
  · have apart : ∀ register ∈ calleeSaved, called.reg register = registers.reg register := by
      intro register member
      obtain ⟨unused, notLink, notStack⟩ := calleeSaved_apart register member
      rw [dispatched.reg register unused, enter_reg notLink notStack]
    rw [moved register member]
    rw [forall_calleeSaved] at apart
    simp only [calleeSaved, List.mem_cons, List.not_mem_nil, or_false] at member
    rcases member with rfl | rfl | rfl | rfl | rfl | rfl | rfl | rfl <;> simp only [movedReg, apart]

theorem skips {machine : Machine} {linked : Word} (id : machine.memory cpuid = BitVec.ofNat 32 core)
    (idle : machine.memory (layout.current core) = 0) (link : Word) :
    ∃ after, runHandler layout.symbols link (pendSvHandler layout.symbols) (machine.set .lr linked) =
        some (.call layout.symbols.schedulerSwitch restoreFrame after) ∧
      after.memory = machine.memory ∧ after.reg .sp = machine.reg .sp := by
  rw [← Machine.set_memory machine .lr linked] at id idle
  obtain ⟨last, ends, after, rfl, memory, sp⟩ := pendSv_skips layout.symbols link id idle
  rw [Machine.set_memory] at memory
  rw [Machine.set_reg, if_neg (by decide)] at sp
  exact ⟨after, ends, memory, sp⟩

theorem blocked_skips {returned : Machine} (well : Well layout state)
    (ready : Ready layout state core thread registers) (flagged : Addresses.flagged number)
    (serves : Serves layout state.memory core registers number served)
    (stores : returned.memory = Function.update
      (Function.update served.memory (layout.cell thread) (served.reg .r0)) (layout.current core) 0)
    (link : Word) :
    ∃ after, runHandler layout.symbols link (pendSvHandler layout.symbols)
        (returned.set .lr (served.reg .lr)) =
          some (.call layout.symbols.schedulerSwitch restoreFrame after) ∧
      after.memory = returned.memory ∧ after.reg .sp = returned.reg .sp := by
  have runs_well := (well.thread thread).running core registers ready.running
  obtain ⟨-, written, -⟩ := serves_flagged well ready flagged serves
  have id : returned.memory cpuid = BitVec.ofNat 32 core := by
    rw [stores, Function.update_of_ne cpuid_ne_current, Function.update_of_ne cpuid_ne_cell, written]
    exact (framed_place runs_well ready.room .cpuid).trans (entered_cpuid runs_well ready.room)
  have idle : returned.memory (layout.current core) = 0 := by rw [stores, Function.update_self]
  exact skips id idle link

theorem blocked_refines [DecidableEq T] {contexts : Contexts T} {link : Word} {rest : List Instr}
    {returned machine : Machine} (well : Well layout state) (refines : Refines layout state contexts)
    (ready : Ready layout state core thread registers) (flagged : Addresses.flagged number)
    (serves : Serves layout state.memory core registers number served)
    (returns : Returns served returned)
    (stores : returned.memory = Function.update
      (Function.update served.memory (layout.cell thread) (served.reg .r0)) (layout.current core) 0)
    (handler : runHandler layout.symbols link (pendSvHandler layout.symbols)
      (returned.set .lr (served.reg .lr)) =
        some (.call layout.symbols.schedulerSwitch rest machine)) :
    Well layout (state.keep core thread machine.memory rest machine) ∧
      Refines layout (state.keep core thread machine.memory rest machine) contexts := by
  have runs_well := (well.thread thread).running core registers ready.running
  obtain ⟨pointer, written, stack, -⟩ := serves_flagged well ready flagged serves
  obtain ⟨after, ends, kept, sp⟩ := blocked_skips well ready flagged serves stores link
  rw [handler] at ends
  cases ends
  rw [stores, pointer, written] at kept
  rw [returns.sp, stack] at sp
  refine keep_refines well refines ready ?_ ?_ ?_
  · refine stored_of_writes runs_well ready.room ?_ ?_ ?_
    · intro address cell current _
      rw [kept, Function.update_of_ne current, Function.update_of_ne cell]
    · rw [kept, Function.update_of_ne cell_ne_current, Function.update_self]
    · rw [kept, Function.update_self]
  · intro main
    rw [sp, main, if_neg Bool.false_ne_true]
  · intro process
    rw [sp, process, if_pos rfl]

theorem RunsWell.caller_home (well : RunsWell layout state core thread registers)
    (caller : layout.address thread = 0) : layout.home thread = some core := by
  cases place : layout.home thread with
  | none => exact absurd place (layout.caller_home thread caller)
  | some other => rw [well.home other place]

theorem started_pends {called : Machine} (well : Well layout state)
    (ready : Ready layout state core thread registers) (caller : layout.address thread = 0)
    (dispatched : Dispatched 0 registers.frame (registers.enter (seenBy core state.memory)) called)
    (link : Word) :
    ∃ pended, runHandler layout.symbols link (svcHandler0 layout.symbols) called =
        some (.leave registers.exceptionReturn pended) ∧
      pended.reg .sp = schedulerFrame registers ∧
      pended.memory = Function.update (Function.update
        (storeWords (registers.enter (seenBy core state.memory)).memory (schedulerFrame registers)
          (frameWords registers.exceptionReturn (controlWord registers.unprivileged) registers.reg))
        (layout.cell thread) (schedulerFrame registers)) icsr pendSvSet := by
  have runs_well := (well.thread thread).running core registers ready.running
  have home := runs_well.caller_home caller
  have main : registers.process = false := by
    rw [runs_well.process, home]
    rfl
  have cell : layout.cell thread = layout.symbols.clsDatum core layout.symbols.schedulerInitialFrame := by
    rw [Addresses.cell, if_pos caller, home]
  have id : called.memory cpuid = BitVec.ofNat 32 core := by
    rw [dispatched.memory]
    exact entered_cpuid runs_well ready.room
  have apart : ∀ index < 10, cpuid ≠ wordAt (schedulerFrame registers) index := by
    intro index small same
    have spot := framed_word runs_well ready.room small
    rw [← same] at spot
    exact layout.outside .cpuid thread spot
  have above : called.reg .sp = wordAt (schedulerFrame registers) 10 := by
    rw [dispatched.reg .sp (by decide), enter_sp, main, wordAt_schedulerFrame]
    rfl
  obtain ⟨last, ends, pended, rfl, sp, written⟩ := svcHandler0_saves layout.symbols link id apart above
    (aligned_schedulerFrame runs_well.aligned)
  have words : frameWords (called.reg .lr) (controlWord called.unprivileged) called.reg =
      frameWords registers.exceptionReturn (controlWord registers.unprivileged) registers.reg := by
    have apart : ∀ register ∈ calleeSaved, register ∉ [Reg.r0, .r1, .r2, .r3] := by decide
    rw [dispatched.reg .lr (by decide), enter_lr, dispatched.unprivileged, frameWords_congr
      fun register member => dispatched.reg register (apart register member), enter_frameWords]
    rfl
  have linked : called.reg .lr = registers.exceptionReturn :=
    (dispatched.reg .lr (by decide)).trans enter_lr
  rw [words, dispatched.memory, ← cell] at written
  rw [linked] at ends
  exact ⟨pended, ends, sp, written⟩

theorem started_skips {pended : Machine} (well : Well layout state)
    (ready : Ready layout state core thread registers) (caller : layout.address thread = 0)
    (written : pended.memory = Function.update (Function.update
      (storeWords (registers.enter (seenBy core state.memory)).memory (schedulerFrame registers)
        (frameWords registers.exceptionReturn (controlWord registers.unprivileged) registers.reg))
      (layout.cell thread) (schedulerFrame registers)) icsr pendSvSet) (link : Word) :
    ∃ after, runHandler layout.symbols link (pendSvHandler layout.symbols)
        (pended.set .lr registers.exceptionReturn) =
          some (.call layout.symbols.schedulerSwitch restoreFrame after) ∧
      after.memory = pended.memory ∧ after.reg .sp = pended.reg .sp ∧
      pended.memory (layout.current core) = 0 := by
  have runs_well := (well.thread thread).running core registers ready.running
  have id : pended.memory cpuid = BitVec.ofNat 32 core := by
    rw [written, Function.update_of_ne (by decide), Function.update_of_ne cpuid_ne_cell]
    exact (framed_place runs_well ready.room .cpuid).trans (entered_cpuid runs_well ready.room)
  have idle : pended.memory (layout.current core) = 0 := by
    rw [written, Function.update_of_ne current_ne_icsr, Function.update_of_ne cell_ne_current.symm]
    have entered := entered_place runs_well ready.room (.current core) (by simp)
    exact (framed_place runs_well ready.room (.current core)).trans
      (entered.trans (runs_well.current.trans caller))
  obtain ⟨after, ends, memory, sp⟩ := skips id idle link
  exact ⟨after, ends, memory, sp, idle⟩

theorem started_refines [DecidableEq T] {contexts : Contexts T} {link target return_value : Word}
    {rest : List Instr} {called pended machine : Machine} (well : Well layout state)
    (refines : Refines layout state contexts)
    (ready : Ready layout state core thread registers) (caller : layout.address thread = 0)
    (code : byteAt (registers.enter (seenBy core state.memory)).memory (registers.pc - 2#32) = 0#32)
    (dispatch : runHandler layout.symbols link (svcHandler layout.symbols)
      (registers.enter (seenBy core state.memory)) = some (.leave target called))
    (start : runHandler layout.symbols link (svcHandler0 layout.symbols) called =
      some (.leave return_value pended))
    (handler : runHandler layout.symbols link (pendSvHandler layout.symbols)
      (pended.set .lr return_value) =
        some (.call layout.symbols.schedulerSwitch rest machine)) :
    Well layout (state.keep core thread machine.memory rest machine) ∧
      Refines layout (state.keep core thread machine.memory rest machine) contexts := by
  have runs_well := (well.thread thread).running core registers ready.running
  have dispatched := dispatched_of_code 0 code runs_well.aligned dispatch
  obtain ⟨saved, ends, sp, written⟩ := started_pends well ready caller dispatched link
  rw [start] at ends
  cases ends
  obtain ⟨after, ends, kept, pointer, idle⟩ := started_skips well ready caller written link
  rw [handler] at ends
  cases ends
  refine keep_refines well refines ready ?_ (fun _ => pointer.trans sp) fun process => ?_
  · refine stored_of_writes runs_well ready.room ?_ ?_ ?_
    · intro address cell _ icsr
      rw [kept, written, Function.update_of_ne icsr, Function.update_of_ne cell]
    · rw [kept, written, Function.update_of_ne cell_ne_icsr, Function.update_self]
    · rw [kept]
      exact idle
  · rw [runs_well.process, runs_well.caller_home caller] at process
    exact absurd process Bool.false_ne_true

theorem exited_skips {returned : Machine} (well : Well layout state)
    (ready : Ready layout state core thread registers) (plain : ¬Addresses.flagged number)
    (serves : Serves layout state.memory core registers number served)
    (stores : returned.memory = Function.update served.memory (layout.current core) 0) (link : Word) :
    ∃ after, runHandler layout.symbols link (pendSvHandler layout.symbols)
        (returned.set .lr (served.reg .lr)) =
          some (.call layout.symbols.schedulerSwitch restoreFrame after) ∧
      after.memory = returned.memory ∧ after.reg .sp = returned.reg .sp := by
  have runs_well := (well.thread thread).running core registers ready.running
  obtain ⟨-, -, written⟩ := serves_plain well ready plain serves
  have id : returned.memory cpuid = BitVec.ofNat 32 core := by
    rw [stores, Function.update_of_ne cpuid_ne_current, written]
    exact entered_cpuid runs_well ready.room
  have idle : returned.memory (layout.current core) = 0 := by rw [stores, Function.update_self]
  exact skips id idle link

theorem exited_refines [DecidableEq T] {contexts : Contexts T} {link : Word} {rest : List Instr}
    {returned machine : Machine} (well : Well layout state) (refines : Refines layout state contexts)
    (ready : Ready layout state core thread registers) (plain : ¬Addresses.flagged number)
    (serves : Serves layout state.memory core registers number served)
    (returns : Returns served returned)
    (stores : returned.memory = Function.update served.memory (layout.current core) 0)
    (handler : runHandler layout.symbols link (pendSvHandler layout.symbols)
      (returned.set .lr (served.reg .lr)) =
        some (.call layout.symbols.schedulerSwitch rest machine)) :
    Well layout (state.drop core machine.memory rest machine) ∧
      Refines layout (state.drop core machine.memory rest machine)
        (Function.update contexts thread none) := by
  have runs_well := (well.thread thread).running core registers ready.running
  obtain ⟨unchanged, -, written⟩ := serves_plain well ready plain serves
  obtain ⟨after, ends, kept, sp⟩ := exited_skips well ready plain serves stores link
  rw [handler] at ends
  cases ends
  rw [stores, written] at kept
  rw [returns.sp, unchanged.reg .sp (by decide), enter_sp] at sp
  have step : CoreStep layout state (state.drop core machine.memory restoreFrame machine) core thread := {
    frame := fun address foreign => by
      have current : address ≠ layout.current core := fun same => foreign (.current same)
      simp only [State.drop, kept, Function.update_of_ne current]
      exact entered_foreign runs_well ready.room foreign
    elsewhere := fun other different => Function.update_of_ne different _ _
    kept := fun other different => Iff.rfl
    before := fun other different others => running_other ready.running different
    after := fun other different others => by simp [State.drop]
    main := fun other different home => by
      simp only [State.drop, Function.update_self, ready.running, Mode.main]
      rw [sp, runs_well.on_process home different, if_pos rfl]
    switching := fun rest others stops => by
      simp only [State.drop, Function.update_self, Mode.switching.injEq] at stops
      refine ⟨stops.1.symm, ?_⟩
      simp only [State.drop, kept, Function.update_self] }
  have stopped (elsewhere : Fin 2) (others : Core) :
      (state.drop core machine.memory restoreFrame machine).core elsewhere ≠ .running thread others := by
    intro runs
    have here := step.alone runs_well.alone elsewhere others runs
    subst here
    simp [State.drop] at runs
  exact (step.threadStep well).refines well refines
    ⟨fun elsewhere others runs => absurd runs (stopped elsewhere others),
      fun waits => absurd waits runs_well.unkept, fun waits => absurd waits runs_well.unkept⟩
    ⟨runs_well.unkept, stopped⟩

structure Answered (layout : Layout T) (state : State T) (core : Fin 2) (registers : Core) (value : Word)
    (returned : Machine) (after : Core) : Prop where
  memory : returned.memory =
    Function.update (registers.enter (seenBy core state.memory)).memory registers.frame value
  context : after.context = answer value registers.context
  main : registers.process = true → after.reg .sp = registers.reg .sp

theorem served_answered {returned : Machine} {value : Word} {after : Core} (well : Well layout state)
    (ready : Ready layout state core thread registers) (plain : ¬Addresses.flagged number)
    (serves : Serves layout state.memory core registers number served)
    (returns : Returns served returned)
    (stores : returned.memory = Function.update served.memory (served.reg .r0) value)
    (left : leave (served.reg .lr) returned = some after) :
    Answered layout state core registers value returned after := by
  obtain ⟨unchanged, pointer, written⟩ := serves_plain well ready plain serves
  have memory : returned.memory =
      Function.update (registers.enter (seenBy core state.memory)).memory registers.frame value := by
    rw [stores, pointer, written]
  have returned_sp : returned.reg .sp =
      if registers.process then registers.reg .sp else registers.frame := by
    rw [returns.sp, unchanged.reg .sp (by decide), enter_sp]
  have returned_psp : returned.psp =
      if registers.process then registers.frame else registers.psp := by
    rw [returns.psp, unchanged.psp, enter_psp]
  have resumed : after = unstack returned registers.process := by
    rw [unchanged.reg .lr (by decide), enter_lr, Core.exceptionReturn] at left
    cases process : registers.process <;> rw [process] at left <;> cases left <;> rfl
  have preserved : ∀ register ∈ calleeSaved, returned.reg register = registers.reg register := by
    intro register member
    obtain ⟨unused, notLink, notStack⟩ := calleeSaved_apart register member
    rw [returns.reg register member, unchanged.reg register unused, enter_reg notLink notStack]
  have stack : (if registers.process then returned.psp else returned.reg .sp) = registers.frame := by
    rw [returned_psp, returned_sp]
    cases registers.process <;> rfl
  have privilege : returned.unprivileged = registers.unprivileged :=
    returns.unprivileged.trans unchanged.unprivileged
  refine ⟨memory, ?_, fun process => ?_⟩
  · rw [resumed, unstack_context, stack, memory, privilege, unstacked_answer,
      unstacked_stacked (fun index inside => enter_stacked inside) preserved]
  · rw [process, if_pos rfl] at returned_sp
    rw [resumed, process]
    exact returned_sp

theorem served_refines [DecidableEq T] {contexts : Contexts T} {returned : Machine} {value : Word}
    {after : Core} (well : Well layout state) (refines : Refines layout state contexts)
    (ready : Ready layout state core thread registers) (plain : ¬Addresses.flagged number)
    (serves : Serves layout state.memory core registers number served)
    (returns : Returns served returned)
    (stores : returned.memory = Function.update served.memory (served.reg .r0) value)
    (left : leave (served.reg .lr) returned = some after) :
    Well layout (state.goOn core thread returned.memory after) ∧
      Refines layout (state.goOn core thread returned.memory after)
        (Function.update contexts thread ((contexts thread).map (View.answer value))) := by
  have runs_well := (well.thread thread).running core registers ready.running
  obtain ⟨memory, context, main⟩ := served_answered well ready plain serves returns stores left
  have spot := toNat_frame registers (by have room := ready.room; omega)
  have inside : layout.Within thread registers.frame := by
    have room := ready.room
    have upper := runs_well.upper
    constructor <;> split at spot <;> omega
  have place (place : Place T) (apart : place ≠ .cpuid) :
      returned.memory (layout.place place) = state.memory (layout.place place) := by
    have away : layout.place place ≠ registers.frame := by
      intro same
      exact layout.outside place thread (same ▸ inside)
    rw [memory, Function.update_of_ne away]
    exact entered_place runs_well ready.room place apart
  have stack_pointer : after.stackPointer = registers.stackPointer :=
    congrArg (fun context : Context => context.reg .sp) context
  have process : after.process = registers.process :=
    congrArg (fun context : Context => context.process) context
  have step : CoreStep layout state (state.goOn core thread returned.memory after) core thread := {
    frame := fun address foreign => by
      have away : address ≠ registers.frame := fun same => foreign (.stack (same ▸ inside))
      simp only [State.goOn, memory, Function.update_of_ne away]
      exact entered_foreign runs_well ready.room foreign
    elsewhere := fun other different => Function.update_of_ne different _ _
    kept := fun other different => Iff.rfl
    before := fun other different others => running_other ready.running different
    after := fun other different others => by
      simp only [State.goOn, Function.update_self, ne_eq, Mode.running.injEq, not_and]
      exact fun same => absurd same.symm different
    main := fun other different home => by
      simp only [State.goOn, Function.update_self, ready.running, Mode.main]
      exact main (runs_well.on_process home different)
    switching := fun rest machine stops => by simp [State.goOn] at stops }
  have own : RunsWell layout (state.goOn core thread returned.memory after) core thread after := {
    aligned := stack_pointer ▸ runs_well.aligned
    lower := stack_pointer ▸ runs_well.lower
    upper := stack_pointer ▸ runs_well.upper
    process := process.trans runs_well.process
    home := runs_well.home
    unkept := runs_well.unkept
    current := (place (.current core) (by simp)).trans runs_well.current
    alone := step.alone runs_well.alone }
  have whole := (step.threadStep well).runs well refines (Function.update_self _ _ _) own
  -- The result is stored below the part of the stack that the thread sees.
  have view : (contexts thread).map (View.answer value) =
      some (viewOf layout (state.goOn core thread returned.memory after).memory thread
        after.context) := by
    rw [runs_well.shown ready.running (refines thread), Option.map_some, answer_viewOf, context]
    congr 1
    symm
    apply viewOf_congr
    intro address low high
    have above : registers.stackPointer.toNat ≤ address.toNat := low
    have room := ready.room
    have away : address ≠ registers.frame := by
      rintro rfl
      split at spot <;> omega
    have id : address ≠ layout.place .cpuid := by
      rintro rfl
      exact layout.outside .cpuid thread ⟨Nat.le_trans runs_well.lower low, high⟩
    simp only [State.goOn, memory, Function.update_of_ne away]
    rw [enter_outside (by omega) (.inr above), seenBy_of_ne id]
  rwa [view]

end Services

end Saving

end PicoToolkit.Port
