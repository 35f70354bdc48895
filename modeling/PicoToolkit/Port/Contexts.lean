import PicoToolkit.Port.Saving

/-!
No switch changes the context of a thread, and no thread gets that of another one.
-/

namespace PicoToolkit.Port

open Thumb

variable {T : Type} {layout : Layout T} {state : State T}

section Steps

variable {thread other : T} {core : Fin 2} {contexts : Contexts T} {memory : Word → Word}

theorem untouched_of_guarded {except : Option T} (safe : ∀ address, Guarded layout state except address →
    memory address = state.memory address) (different : some other ≠ except) :
    Untouched layout state memory other where
  cell waits := safe _ (.inr (.inr (.inl ⟨other, waits, rfl⟩)))
  live _ live := safe _ (.inr (.inr (.inr ⟨other, different, live⟩)))

theorem ThreadWell.waiting (well : ThreadWell layout state thread) (waits : state.kept thread)
    (core : Fin 2) (registers : Core) : state.core core ≠ .running thread registers :=
  fun runs => (well.running core registers runs).unkept waits

theorem other_refines (well : Well layout state) (refines : Refines layout state contexts)
    (safe : ∀ address, Guarded layout state none address → memory address = state.memory address) :
    Well layout { state with memory := memory } ∧
      Refines layout { state with memory := memory } contexts := by
  have current (core : Fin 2) : memory (layout.current core) = state.memory (layout.current core) :=
    safe _ (.inl ⟨core, rfl⟩)
  have each (thread : T) : ThreadWell layout { state with memory := memory } thread ∧
      ShowsAs layout { state with memory := memory } thread (contexts thread) :=
    untouched_stays (well.thread thread) (refines thread) (untouched_of_guarded safe (by simp))
      Iff.rfl (fun _ _ => Iff.rfl) (fun core _ _ => current core) (fun _ _ _ => rfl)
  refine ⟨⟨fun thread => (each thread).1, fun core rest machine stops => ?_, fun table number => ?_⟩,
    fun thread => (each thread).2⟩
  · obtain ⟨code, idle⟩ := well.switching core rest machine stops
    exact ⟨code, (current core).trans idle⟩
  · exact (safe _ (.inr (.inl ⟨table, number, rfl⟩))).trans (well.table table number)

theorem resumed_restores {frame : Word} (link : Word) (before : Machine)
    (kept_well : KeptWell layout state.memory thread frame) (pointer : before.reg .r0 = frame)
    (seen : before.memory = seenBy core
      (Function.update state.memory (layout.current core) (layout.address thread))) :
    ∃ after registers,
      run (known layout.symbols) link (pendSvHandler layout.symbols) fuel restoreFrame before =
        some (.leave (before.memory frame) after) ∧
      leave (before.memory frame) after = some registers ∧
      registers.context = frameContext state.memory frame ∧
      registers.process = (layout.home thread).isNone ∧
      (registers.process = true → registers.reg .sp = before.reg .sp) ∧
      after.memory = before.memory ∧
      ∀ address, layout.Within thread address → before.memory address = state.memory address := by
  have stack (address : Word) (within : layout.Within thread address) :
      before.memory address = state.memory address := by
    have current : address ≠ layout.current core := by
      rintro rfl
      exact layout.outside (.current core) thread within
    have id : address ≠ layout.place .cpuid := by
      rintro rfl
      exact layout.outside .cpuid thread within
    rw [seen, seenBy_of_ne id, Function.update_of_ne current]
  have lower := kept_well.lower
  obtain ⟨context, framed⟩ := kept_well.congr fun address low high =>
    stack address ⟨by omega, high⟩
  have returns := framed.returns
  have return_values : before.memory frame = returnToProcess ∨ before.memory frame = returnToMain := by
    rw [returns, returnValue]
    split
    · exact .inr rfl
    · exact .inl rfl
  obtain ⟨last, ends, after, rfl, restored⟩ := run_restoreFrame layout.symbols link pointer
    kept_well.aligned
  obtain ⟨registers, leaves, shows_context, process, main⟩ := leave_restored restored return_values
  refine ⟨after, registers, ends, leaves, shows_context.trans context, ?_, main, restored.memory, stack⟩
  rw [process, returns, onProcess_returnValue]

section FirstFrame

variable {frame entryPoint context : Word}

theorem storeFirstFrame_outside {address : Word}
    (other : ∀ index < 18, address ≠ wordAt frame index) :
    storeFirstFrame memory frame entryPoint context address = memory address := by
  unfold storeFirstFrame
  rw [Function.update_of_ne (other 10 (by decide)), Function.update_of_ne (other 17 (by decide)),
    Function.update_of_ne (other 15 (by decide)), Function.update_of_ne (other 16 (by decide)),
    Function.update_of_ne (other 1 (by decide)), Function.update_of_ne (other 0 (by decide))]

theorem firstFrame_context (memory : Word → Word) (frame entryPoint context : Word) :
    storeFirstFrame memory frame entryPoint context frame = returnToProcess ∧
      (frameContext (storeFirstFrame memory frame entryPoint context) frame).reg .sp =
        wordAt frame 18 ∧
      (frameContext (storeFirstFrame memory frame entryPoint context) frame).reg .r0 = context ∧
      (frameContext (storeFirstFrame memory frame entryPoint context) frame).pc =
        entryPoint &&& ~~~0x01 := by
  have word (index : Nat) (small : index < 2 ^ 30) :
      storeFirstFrame memory frame entryPoint context (wordAt frame index) =
        if index = 10 then context else if index = 17 then 0x01000000 else if index = 15 then 0
        else if index = 16 then entryPoint &&& ~~~0x01 else if index = 1 then 2
        else if index = 0 then 0xfffffffd else memory (wordAt frame index) := by
    simp (disch := omega) only [storeFirstFrame, Function.update_apply, wordAt_inj]
  have returns : storeFirstFrame memory frame entryPoint context frame = returnToProcess := by
    have first := word 0 (by decide)
    rw [wordAt_zero] at first
    exact first
  refine ⟨returns, ?_, ?_, ?_⟩
  · have status : storeFirstFrame memory frame entryPoint context (wordAt (wordAt frame 10) 7) =
        0x01000000 := by
      rw [wordAt_wordAt]
      exact word 17 (by decide)
    have above : wordAt frame 10 + 32 = wordAt frame 18 := by
      simp [wordAt, BitVec.add_assoc]
    change unstackedPointer _ _ = _
    rw [unstackedPointer, status, if_pos (by decide)]
    exact above
  · change storeFirstFrame memory frame entryPoint context (wordAt (wordAt frame 10) 0) = context
    rw [wordAt_zero]
    exact word 10 (by decide)
  · change storeFirstFrame memory frame entryPoint context (wordAt (wordAt frame 10) 6) = _
    rw [wordAt_wordAt]
    exact word 16 (by decide)

theorem frame_within (lower : layout.bottom thread ≤ frame.toNat)
    (upper : frame.toNat + 72 ≤ layout.top thread) {index : Nat} (small : index < 18) :
    layout.Within thread (wordAt frame index) := by
  have bounded := layout.bounded thread
  have spot : (wordAt frame index).toNat = frame.toNat + 4 * index := toNat_wordAt (by omega)
  exact ⟨by omega, by omega⟩

theorem create_outside (lower : layout.bottom thread ≤ frame.toNat)
    (upper : frame.toNat + 72 ≤ layout.top thread) {address : Word}
    (foreign : ¬layout.Within thread address) (cell : address ≠ layout.cell thread) :
    (state.create layout thread memory frame entryPoint context).memory address =
      memory address := by
  simp only [State.create, Function.update_of_ne cell]
  apply storeFirstFrame_outside
  rintro index small rfl
  exact foreign (frame_within lower upper small)

theorem create_within {address : Word} (within : layout.Within thread address) :
    (state.create layout thread memory frame entryPoint context).memory address =
      storeFirstFrame memory frame entryPoint context address := by
  have cell : address ≠ layout.cell thread := by
    rintro rfl
    exact layout.outside (.cell thread) thread within
  simp only [State.create, Function.update_of_ne cell]

theorem create_kept (process : layout.home thread = none) (aligned : Aligned frame)
    (lower : layout.bottom thread ≤ frame.toNat) (upper : frame.toNat + 72 ≤ layout.top thread) :
    frameContext (state.create layout thread memory frame entryPoint context).memory frame =
        frameContext (storeFirstFrame memory frame entryPoint context) frame ∧
      KeptWell layout (state.create layout thread memory frame entryPoint context).memory thread
        frame := by
  have bounded := layout.bounded thread
  obtain ⟨returns, pointer, -⟩ := firstFrame_context memory frame entryPoint context
  have top : (wordAt frame 18).toNat = frame.toNat + 72 := toNat_wordAt (by omega)
  have same_context : frameContext (state.create layout thread memory frame entryPoint context).memory
      frame = frameContext (storeFirstFrame memory frame entryPoint context) frame :=
    frameContext_congr fun index small => create_within (frame_within lower upper small)
  refine ⟨same_context, aligned, lower, ?_, ?_, ?_, ?_⟩
  · rw [same_context, pointer]
    exact aligned_wordAt aligned
  · rw [same_context, pointer]
    exact Nat.le_of_eq top.symm
  · rw [same_context, pointer, top]
    exact upper
  · have first := frame_within lower upper (show 0 < 18 by decide)
    rw [wordAt_zero] at first
    rw [create_within first, returns, process]
    rfl

theorem create_step (well : Well layout state)
    (safe : ∀ address, Guarded layout state none address → memory address = state.memory address)
    (lower : layout.bottom thread ≤ frame.toNat) (upper : frame.toNat + 72 ≤ layout.top thread) :
    ThreadStep layout state (state.create layout thread memory frame entryPoint context) thread := by
  have place (place : Place T) (apart : place ≠ .cell thread) :
      (state.create layout thread memory frame entryPoint context).memory (layout.place place) =
        memory (layout.place place) :=
    create_outside lower upper (layout.outside place thread) (layout.separate.ne apart)
  have current (core : Fin 2) :
      (state.create layout thread memory frame entryPoint context).memory (layout.current core) =
        state.memory (layout.current core) :=
    (place (.current core) (by simp)).trans (safe _ (.inl ⟨core, rfl⟩))
  exact {
    untouched := fun other different => by
      have guarded : Untouched layout state memory other := untouched_of_guarded safe (by simp)
      refine ⟨fun waits => ?_, fun address live => ?_⟩
      · exact (place (.cell other) (by simpa using different)).trans (guarded.cell waits)
      · have within := live_within (well.thread other) live
        rw [create_outside lower upper, guarded.live address live]
        · intro mine
          have apart := layout.apart other thread different
          obtain ⟨low, high⟩ := within
          obtain ⟨lowest, highest⟩ := mine
          omega
        · rintro rfl
          exact layout.outside (.cell thread) other within
    kept := fun other different => by simp [State.create, different]
    running := fun other different core registers => Iff.rfl
    current := fun other different core registers runs => current core
    main := fun other different waits core home => rfl
    switching := fun core rest machine stops => by
      obtain ⟨code, none⟩ := well.switching core rest machine stops
      exact ⟨code, (current core).trans none⟩
    table := fun table number =>
      (place (.entry table number) (by simp)).trans (safe _ (.inr (.inl ⟨table, number, rfl⟩))) }

end FirstFrame

variable [DecidableEq T]

theorem resumed_refines {registers : Core} {rest : List Instr}
    {machine before after : Machine} {link return_value : Word}
    (well : Well layout state) (refines : Refines layout state contexts)
    (switching : state.core core = .switching rest machine) (waits : state.kept thread)
    (home : ∀ other, layout.home thread = some other → other = core)
    (sp : before.reg .sp = machine.reg .sp)
    (pointer : before.reg .r0 = state.memory (layout.cell thread))
    (seen : before.memory = seenBy core
      (Function.update state.memory (layout.current core) (layout.address thread)))
    (handler : run (known layout.symbols) link (pendSvHandler layout.symbols) fuel rest before =
      some (.leave return_value after))
    (left : leave return_value after = some registers) :
    Well layout (state.resume core thread after.memory registers) ∧
      Refines layout (state.resume core thread after.memory registers) contexts := by
  have kept_well := (well.thread thread).kept waits
  obtain ⟨rfl, idle⟩ := well.switching core rest machine switching
  generalize place : state.memory (layout.cell thread) = frame at kept_well pointer
  have lower := kept_well.lower
  obtain ⟨restored, others, ends, leaves, whole_context, on_process, main, same_memory, stack⟩ :=
    resumed_restores link before kept_well pointer seen
  rw [handler] at ends
  cases ends
  rw [left] at leaves
  cases leaves
  have stack_pointer : registers.stackPointer = (frameContext state.memory frame).reg .sp :=
    congrArg (fun context : Context => context.reg .sp) whole_context
  have step : CoreStep layout state (state.resume core thread after.memory registers) core thread := {
    frame := fun address foreign => by
      have current : address ≠ layout.current core := fun same => foreign (.current same)
      simp only [State.resume, same_memory, seen]
      rw [seenBy_of_ne fun same => foreign (.cpuid same), Function.update_of_ne current]
    elsewhere := fun other different => Function.update_of_ne different _ _
    kept := fun other different => by simp [State.resume, different]
    before := fun other different others => by simp [switching]
    after := fun other different others => by
      simp only [State.resume, Function.update_self, ne_eq, Mode.running.injEq, not_and]
      exact fun same => absurd same.symm different
    main := fun other different elsewhere => by
      have away : registers.process = true := by
        rw [on_process, home_none home elsewhere different]
        rfl
      simp only [State.resume, Function.update_self, switching, Mode.main]
      rw [main away, sp]
    switching := fun rest machine stops => by simp [State.resume] at stops }
  have own : RunsWell layout (state.resume core thread after.memory registers) core thread registers := {
    aligned := by
      rw [stack_pointer]
      exact kept_well.pointer
    lower := by
      have above := kept_well.above
      rw [stack_pointer]
      omega
    upper := by
      rw [stack_pointer]
      exact kept_well.upper
    process := on_process
    home := home
    unkept := fun still => still.1 rfl
    current := by
      simp only [State.resume, same_memory, seen]
      have apart : layout.current core ≠ layout.place .cpuid := cpuid_ne_current.symm
      rw [seenBy_of_ne apart, Function.update_self]
    alone := step.alone fun elsewhere others runs =>
      absurd runs ((well.thread thread).waiting waits elsewhere others) }
  have runs : (state.resume core thread after.memory registers).core core = .running thread registers :=
    Function.update_self _ _ _
  have whole := (step.threadStep well).runs well refines runs own
  -- What the thread finds is what it was kept with, since nobody wrote its stack meanwhile.
  have view : contexts thread =
      some (viewOf layout (state.resume core thread after.memory registers).memory thread
        registers.context) := by
    rw [(well.thread thread).shown waits (refines thread), place, whole_context]
    congr 1
    symm
    apply viewOf_congr
    intro address low high
    have above := kept_well.above
    simp only [State.resume, same_memory]
    exact stack address ⟨by omega, high⟩
  rwa [← view, Function.update_eq_self] at whole

theorem ran_refines {before after : Core} (well : Well layout state)
    (refines : Refines layout state contexts) (running : state.core core = .running thread before)
    (safe : ∀ address, Guarded layout state (some thread) address →
      memory address = state.memory address)
    (process : after.process = before.process)
    (main : before.process = true → after.reg .sp = before.reg .sp)
    (aligned : Aligned after.stackPointer)
    (lower : layout.bottom thread ≤ after.stackPointer.toNat)
    (upper : after.stackPointer.toNat ≤ layout.top thread) :
    Well layout (state.goOn core thread memory after) ∧
      Refines layout (state.goOn core thread memory after)
        (Function.update contexts thread (some (viewOf layout memory thread after.context))) := by
  have runs_well := (well.thread thread).running core before running
  have elsewhere (other : Fin 2) (different : other ≠ core) :
      (state.goOn core thread memory after).core other = state.core other :=
    Function.update_of_ne different _ _
  have here : (state.goOn core thread memory after).core core = .running thread after :=
    Function.update_self _ _ _
  have current (core : Fin 2) : memory (layout.current core) = state.memory (layout.current core) :=
    safe _ (.inl ⟨core, rfl⟩)
  have step : ThreadStep layout state (state.goOn core thread memory after) thread := {
    untouched := fun other different => untouched_of_guarded safe (by simpa using different)
    kept := fun other different => Iff.rfl
    running := fun other different place registers => by
      by_cases same : place = core
      · subst same
        rw [here, running]
        simp [different.symm]
      · rw [elsewhere place same]
    current := fun other different place registers runs => current place
    main := fun other different waits place home => by
      by_cases same : place = core
      · subst same
        rw [here, running]
        exact main (runs_well.on_process home different)
      · rw [elsewhere place same]
    switching := fun place rest machine stops => by
      by_cases same : place = core
      · subst same
        rw [here] at stops
        cases stops
      · rw [elsewhere place same] at stops
        obtain ⟨code, idle⟩ := well.switching place rest machine stops
        exact ⟨code, (current place).trans idle⟩
    table := fun table number => safe _ (.inr (.inl ⟨table, number, rfl⟩)) }
  exact step.runs well refines here {
    aligned := aligned
    lower := lower
    upper := upper
    process := process.trans runs_well.process
    home := runs_well.home
    unkept := runs_well.unkept
    current := (current core).trans runs_well.current
    alone := fun place others runs => by
      by_cases same : place = core
      · exact same
      · rw [elsewhere place same] at runs
        exact runs_well.alone place others runs }

theorem ended_refines (well : Well layout state) (refines : Refines layout state contexts)
    (waits : state.kept thread) :
    Well layout { state with kept := fun other => other ≠ thread ∧ state.kept other } ∧
      Refines layout { state with kept := fun other => other ≠ thread ∧ state.kept other }
        (Function.update contexts thread none) := by
  have waiting := (well.thread thread).waiting waits
  have step : ThreadStep layout state
      { state with kept := fun other => other ≠ thread ∧ state.kept other } thread := {
    untouched := fun other different => ⟨fun _ => rfl, fun _ _ => rfl⟩
    kept := fun other different => by simp [different]
    running := fun other different core registers => Iff.rfl
    current := fun other different core registers runs => rfl
    main := fun other different waits core home => rfl
    switching := well.switching
    table := fun table number => rfl }
  exact step.refines well refines
    ⟨fun core registers runs => absurd runs (waiting core registers), fun still => absurd rfl still.1,
      fun still => absurd rfl still.1⟩
    ⟨fun still => still.1 rfl, waiting⟩

theorem answered_refines {value : Word} (well : Well layout state)
    (refines : Refines layout state contexts)
    (waits : state.kept thread)
    (stores : memory =
      Function.update state.memory (wordAt (state.memory (layout.cell thread)) 10) value) :
    Well layout { state with memory := memory } ∧
      Refines layout { state with memory := memory }
        (Function.update contexts thread ((contexts thread).map (View.answer value))) := by
  have kept_well := (well.thread thread).kept waits
  have waiting := (well.thread thread).waiting waits
  obtain ⟨spot, below⟩ := kept_well.word (show 10 < 18 by decide)
  have lower := kept_well.lower
  have above := kept_well.above
  have inside : layout.Within thread (wordAt (state.memory (layout.cell thread)) 10) :=
    ⟨by omega, by omega⟩
  have frame (address : Word) (foreign : ¬layout.Within thread address) :
      memory address = state.memory address := by
    have away : address ≠ wordAt (state.memory (layout.cell thread)) 10 := by
      rintro rfl
      exact foreign inside
    rw [stores, Function.update_of_ne away]
  have place (place : Place T) : memory (layout.place place) = state.memory (layout.place place) :=
    frame _ (layout.outside place thread)
  have cell : memory (layout.cell thread) = state.memory (layout.cell thread) := place (.cell thread)
  have context : frameContext memory (state.memory (layout.cell thread)) =
      answer value (frameContext state.memory (state.memory (layout.cell thread))) := by
    rw [stores, frameContext_answer]
  have step : ThreadStep layout state { state with memory := memory } thread := {
    untouched := fun other different =>
      untouched_of_mine 0 (well.thread other) different fun address foreign =>
        frame address fun within => foreign (.stack within)
    kept := fun other different => Iff.rfl
    running := fun other different core registers => Iff.rfl
    current := fun other different core registers runs => place (.current core)
    main := fun other different _ core home => rfl
    switching := fun core rest machine stops => by
      obtain ⟨code, idle⟩ := well.switching core rest machine stops
      exact ⟨code, (place (.current core)).trans idle⟩
    table := fun table number => place (.entry table number) }
  -- The result is a word of the frame, which is not the exception return.
  refine step.refines well refines ?_ ?_
  · refine ⟨fun core registers runs => absurd runs (waiting core registers), fun _ => ?_,
      fun _ core home => ?_⟩
    · dsimp only
      rw [cell]
      refine ⟨kept_well.aligned, kept_well.lower, ?_, ?_, ?_, ?_⟩
      · rw [context]
        exact kept_well.pointer
      · rw [context]
        exact kept_well.above
      · rw [context]
        exact kept_well.upper
      · rw [← kept_well.returns, stores]
        refine Function.update_of_ne ?_ _ _
        have apart : wordAt (state.memory (layout.cell thread)) 0 ≠
          wordAt (state.memory (layout.cell thread)) 10 := wordAt_ne (by decide) (by decide)
        rwa [wordAt_zero] at apart
    · dsimp only
      rw [cell]
      exact (well.thread thread).main waits core home
  · rw [(well.thread thread).shown waits (refines thread), Option.map_some, answer_viewOf]
    refine .inr ⟨waits, ?_⟩
    dsimp only
    rw [cell, context]
    symm
    apply viewOf_congr
    intro address low high
    have pointer : (frameContext state.memory (state.memory (layout.cell thread))).reg .sp =
      (answer value (frameContext state.memory (state.memory (layout.cell thread)))).reg .sp := rfl
    rw [← pointer] at low
    rw [stores]
    refine Function.update_of_ne ?_ _ _
    rintro rfl
    omega

section Created

variable {frame entryPoint context : Word}

theorem created_refines (well : Well layout state) (refines : Refines layout state contexts)
    (idle : ∀ core registers, state.core core ≠ .running thread registers)
    (process : layout.home thread = none)
    (safe : ∀ address, Guarded layout state none address → memory address = state.memory address)
    (aligned : Aligned frame)
    (lower : layout.bottom thread ≤ frame.toNat)
    (upper : frame.toNat + 72 ≤ layout.top thread) :
    Well layout (state.create layout thread memory frame entryPoint context) ∧
      Refines layout (state.create layout thread memory frame entryPoint context)
        (Function.update contexts thread (some (viewOf layout
          (storeFirstFrame memory frame entryPoint context) thread
          (frameContext (storeFirstFrame memory frame entryPoint context) frame)))) := by
  have step : ThreadStep layout state
      (state.create layout thread memory frame entryPoint context) thread :=
    create_step well safe lower upper
  obtain ⟨same_context, kept_well⟩ : _ ∧
      KeptWell layout (state.create layout thread memory frame entryPoint context).memory thread
        frame := create_kept process aligned lower upper
  have cell : (state.create layout thread memory frame entryPoint context).memory
      (layout.cell thread) = frame := Function.update_self _ _ _
  refine step.refines well refines ?_ (.inr ⟨.inl rfl, ?_⟩)
  · refine ⟨fun core registers runs => absurd runs (idle core registers), fun _ => ?_,
      fun _ core home => ?_⟩
    · rw [cell]
      exact kept_well
    · rw [process] at home
      cases home
  · rw [cell, same_context]
    symm
    apply viewOf_congr
    intro address low high
    have above := kept_well.above
    rw [← same_context] at low
    exact create_within ⟨by omega, high⟩

end Created

theorem step_refines {event : Option (Event T)} {next : State T} (well : Well layout state)
    (refines : Refines layout state contexts) (step : Step layout state event next) :
    Well layout next ∧ Refines layout next (event.elim contexts (Event.apply contexts)) := by
  cases step with
  | ran running safe process main aligned lower upper =>
      exact ran_refines well refines running safe process main aligned lower upper
  | other safe => exact other_refines well refines safe
  | answered kept => exact answered_refines well refines kept rfl
  | preempted ready task handler => exact preempted_refines well refines ready task handler rfl
  | blocked ready task frame serves returns stored handler =>
      exact blocked_refines well refines ready frame serves returns stored handler
  | started ready caller code dispatch start handler =>
      exact started_refines well refines ready caller code dispatch start handler
  | served ready plain serves returns stored left =>
      exact served_refines well refines ready plain serves returns stored left
  | resumed switching kept home sp pointer memory handler left =>
      exact resumed_refines well refines switching kept home sp pointer memory handler left
  | created fresh idle task process safe aligned lower upper =>
      exact created_refines well refines idle process safe aligned lower upper
  | ended kept => exact ended_refines well refines kept
  | exited ready task plain serves returns stored handler =>
      exact exited_refines well refines ready plain serves returns stored handler

end Steps

end PicoToolkit.Port
