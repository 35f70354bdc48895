import PicoToolkit.Port.Contexts

/-!
No handler gets stuck: each one that can start reaches the function that it is for, and the thread that
`scheduler_switch` picks goes on.
-/

namespace PicoToolkit.Port

open Thumb

variable {T : Type} {layout : Layout T} {state : State T} {thread : T} {core : Fin 2} {registers : Core}

def Calls (state : State T) (core : Fin 2) (registers : Core) (number : Fin 9) : Prop :=
  byteAt (registers.enter (seenBy core state.memory)).memory (registers.pc - 2#32) = BitVec.ofNat 32 number

theorem calls_dispatched (well : Well layout state) (ready : Ready layout state core thread registers)
    {number : Fin 9} (calls : Calls state core registers number) (link : Word) :
    ∃ called, runHandler layout.symbols link (svcHandler layout.symbols)
        (registers.enter (seenBy core state.memory)) =
          some (.leave (layout.entry .svcVector number) called) ∧
      Dispatched number registers.frame (registers.enter (seenBy core state.memory)) called := by
  have runs_well := (well.thread thread).running core registers ready.running
  have counter : (registers.enter (seenBy core state.memory)).memory (wordAt registers.frame 6) =
    registers.pc := enter_stacked (by decide)
  have entry : (registers.enter (seenBy core state.memory)).memory
      (wordAt layout.symbols.svcVector number) = layout.entry .svcVector number :=
    entered_entry well runs_well ready.room .svcVector number
  obtain ⟨last, ends, called, rfl, dispatched⟩ := svcHandler_dispatches layout.symbols link
    enter_pointer (aligned_frame runs_well.aligned) (by rw [counter]; exact calls)
  rw [entry] at ends
  exact ⟨called, ends, dispatched⟩

theorem calls_serves (well : Well layout state) (ready : Ready layout state core thread registers)
    {number : Fin 9} (positive : number ≠ 0) (calls : Calls state core registers number) :
    ∃ served, Serves layout state.memory core registers number served := by
  have runs_well := (well.thread thread).running core registers ready.running
  obtain ⟨called, dispatch, dispatched⟩ := calls_dispatched well ready calls 0
  rw [Addresses.entry, if_neg positive] at dispatch
  have entry : called.memory (wordAt layout.symbols.schedulerSvcVector number) =
      layout.entry .schedulerSvcVector number := by
    rw [dispatched.memory]
    exact entered_entry well runs_well ready.room .schedulerSvcVector number
  by_cases flagged : Addresses.flagged number
  · obtain ⟨flag, target⟩ := entry_flagged layout flagged
    have main : onProcess (called.reg .lr) = false →
        called.reg .sp = wordAt (schedulerFrame registers) 10 := by
      rw [dispatched.reg .lr (by decide), enter_lr, onProcess_exceptionReturn]
      intro main
      rw [dispatched.reg .sp (by decide), enter_sp, main, wordAt_schedulerFrame, if_neg Bool.false_ne_true]
    obtain ⟨last, ends, served, rfl, -⟩ := schedulerSvcHandler_framed layout.symbols 0
      dispatched.number (dispatched.frame.trans wordAt_schedulerFrame.symm)
      (aligned_schedulerFrame runs_well.aligned) main (by rwa [entry])
    rw [entry, target] at ends
    exact ⟨served, calls, 0, called, dispatch, ends⟩
  · obtain ⟨target, flag⟩ := entry_plain layout flagged
    obtain ⟨last, ends, served, rfl, -⟩ := schedulerSvcHandler_plain layout.symbols 0
      dispatched.number dispatched.frame (by rwa [entry])
    rw [entry, target] at ends
    exact ⟨served, calls, 0, called, dispatch, ends⟩

theorem preempted_step (well : Well layout state) (ready : Ready layout state core thread registers)
    (task : layout.address thread ≠ 0) :
    ∃ memory machine, Step layout state none (state.keep core thread memory restoreFrame machine) := by
  obtain ⟨machine, handler, saved⟩ := preempted_saves well ready task 0
  exact ⟨_, machine, .preempted ready task handler⟩

theorem started_step (well : Well layout state) (ready : Ready layout state core thread registers)
    (caller : layout.address thread = 0) (calls : Calls state core registers 0) :
    ∃ memory machine, Step layout state none (state.keep core thread memory restoreFrame machine) := by
  obtain ⟨called, dispatch, dispatched⟩ := calls_dispatched well ready calls 0
  obtain ⟨pended, start, sp, written⟩ := started_pends well ready caller dispatched 0
  obtain ⟨machine, handler, -⟩ := started_skips well ready caller written 0
  exact ⟨machine.memory, machine, .started ready caller calls dispatch start handler⟩

theorem blocked_step (well : Well layout state) (ready : Ready layout state core thread registers)
    (task : layout.address thread ≠ 0) {number : Fin 9} (flagged : Addresses.flagged number)
    {served returned : Machine} (serves : Serves layout state.memory core registers number served)
    (returns : Returns served returned)
    (stored : returned.memory = Function.update
      (Function.update served.memory (layout.cell thread) (served.reg .r0)) (layout.current core) 0) :
    ∃ memory machine, Step layout state none (state.keep core thread memory restoreFrame machine) := by
  obtain ⟨machine, handler, -⟩ := blocked_skips well ready flagged serves stored 0
  exact ⟨machine.memory, machine, .blocked ready task flagged serves returns stored handler⟩

theorem exited_step (well : Well layout state) (ready : Ready layout state core thread registers)
    (task : layout.address thread ≠ 0) {number : Fin 9} (plain : ¬Addresses.flagged number)
    {served returned : Machine} (serves : Serves layout state.memory core registers number served)
    (returns : Returns served returned)
    (stored : returned.memory = Function.update served.memory (layout.current core) 0) :
    ∃ memory machine,
      Step layout state (some (.ended thread)) (state.drop core memory restoreFrame machine) := by
  obtain ⟨machine, handler, -⟩ := exited_skips well ready plain serves stored 0
  exact ⟨machine.memory, machine, .exited ready task plain serves returns stored handler⟩

theorem served_step (well : Well layout state) (ready : Ready layout state core thread registers)
    {number : Fin 9} (plain : ¬Addresses.flagged number)
    {served returned : Machine} (serves : Serves layout state.memory core registers number served)
    (returns : Returns served returned) {value : Word}
    (stored : returned.memory = Function.update served.memory (served.reg .r0) value) :
    ∃ after, Step layout state (some (.answered thread value))
      (state.goOn core thread returned.memory after) := by
  obtain ⟨unchanged, -⟩ := serves_plain well ready plain serves
  have linked : served.reg .lr = registers.exceptionReturn :=
    (unchanged.reg .lr (by decide)).trans enter_lr
  have leaves : leave (served.reg .lr) returned = some (unstack returned registers.process) := by
    rw [linked, Core.exceptionReturn]
    cases registers.process <;> rfl
  exact ⟨_, .served ready plain serves returns stored leaves⟩

theorem resumed_step (well : Well layout state) {rest : List Instr} {machine : Machine}
    (switching : state.core core = .switching rest machine) (waits : state.kept thread)
    (home : ∀ other, layout.home thread = some other → other = core) :
    ∃ memory registers, Step layout state none (state.resume core thread memory registers) := by
  obtain ⟨rfl, idle⟩ := well.switching core rest machine switching
  obtain ⟨after, registers, ends, leaves, -⟩ := resumed_restores 0
    ((machine.set .r0 (state.memory (layout.cell thread))).setMemory (seenBy core
      (Function.update state.memory (layout.current core) (layout.address thread))))
    ((well.thread thread).kept waits) (by simp) rfl
  exact ⟨after.memory, registers, .resumed switching waits home (by simp) (by simp) rfl ends leaves⟩

structure Going (layout : Layout T) (state : State T) : Prop where
  preempted : ∀ {core thread registers}, Ready layout state core thread registers →
    layout.address thread ≠ 0 →
      ∃ memory machine, Step layout state none (state.keep core thread memory restoreFrame machine)
  started : ∀ {core thread registers}, Ready layout state core thread registers →
    layout.address thread = 0 → Calls state core registers 0 →
      ∃ memory machine, Step layout state none (state.keep core thread memory restoreFrame machine)
  called : ∀ {core thread registers}, Ready layout state core thread registers →
    ∀ {number}, number ≠ 0 → Calls state core registers number →
      ∃ served, Serves layout state.memory core registers number served
  blocked : ∀ {core thread registers}, Ready layout state core thread registers →
    layout.address thread ≠ 0 → ∀ {number}, Addresses.flagged number →
      ∀ {served returned}, Serves layout state.memory core registers number served →
        Returns served returned →
        returned.memory = Function.update
          (Function.update served.memory (layout.cell thread) (served.reg .r0)) (layout.current core) 0 →
      ∃ memory machine, Step layout state none (state.keep core thread memory restoreFrame machine)
  served : ∀ {core thread registers}, Ready layout state core thread registers →
    ∀ {number}, ¬Addresses.flagged number →
      ∀ {served returned}, Serves layout state.memory core registers number served →
        Returns served returned →
        ∀ {value}, returned.memory = Function.update served.memory (served.reg .r0) value →
      ∃ after, Step layout state (some (.answered thread value))
        (state.goOn core thread returned.memory after)
  exited : ∀ {core thread registers}, Ready layout state core thread registers →
    layout.address thread ≠ 0 → ∀ {number}, ¬Addresses.flagged number →
      ∀ {served returned}, Serves layout state.memory core registers number served →
        Returns served returned →
        returned.memory = Function.update served.memory (layout.current core) 0 →
      ∃ memory machine,
        Step layout state (some (.ended thread)) (state.drop core memory restoreFrame machine)
  resumed : ∀ {core thread rest machine}, state.core core = .switching rest machine →
    state.kept thread → (∀ other, layout.home thread = some other → other = core) →
      ∃ memory registers, Step layout state none (state.resume core thread memory registers)

theorem Well.going (well : Well layout state) : Going layout state where
  preempted := preempted_step well
  started := started_step well
  called := calls_serves well
  blocked := blocked_step well
  served := served_step well
  exited := exited_step well
  resumed := resumed_step well

end PicoToolkit.Port
