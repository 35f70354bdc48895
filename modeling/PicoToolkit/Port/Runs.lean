import PicoToolkit.Port.Progress

/-!
Runs of the threads from the start, when both cores are on their main stacks.
-/

namespace PicoToolkit.Port

open Thumb

variable {T : Type} {layout : Layout T} {state last : State T} {thread : T} {core : Fin 2}

structure StartsWith (layout : Layout T) (state : State T) (core : Fin 2) (thread : T)
    (registers : Core) : Prop where
  running : state.core core = .running thread registers
  home : layout.home thread = some core
  main : registers.process = false
  aligned : Aligned registers.stackPointer
  lower : layout.bottom thread ≤ registers.stackPointer.toNat
  upper : registers.stackPointer.toNat ≤ layout.top thread
  current : state.memory (layout.current core) = layout.address thread

structure Initial (layout : Layout T) (state : State T) : Prop where
  starts : ∀ core, ∃ thread registers, StartsWith layout state core thread registers
  kept : ∀ thread, ¬state.kept thread
  table : ∀ table number, state.memory (layout.place (.entry table number)) = layout.entry table number

theorem initial_well (initial : Initial layout state) : Well layout state where
  thread thread := by
    refine ⟨fun core registers runs => ?_, fun waits => absurd waits (initial.kept thread),
      fun waits => absurd waits (initial.kept thread)⟩
    obtain ⟨other, others, starts⟩ := initial.starts core
    have same := starts.running.symm.trans runs
    cases same
    exact {
      aligned := starts.aligned
      lower := starts.lower
      upper := starts.upper
      process := by
        rw [starts.main, starts.home]
        rfl
      home := fun place home => by
        rw [starts.home] at home
        exact (Option.some.inj home).symm
      unkept := initial.kept thread
      current := starts.current
      alone := fun place others elsewhere => by
        obtain ⟨again, registers, also⟩ := initial.starts place
        have same := also.running.symm.trans elsewhere
        cases same
        exact Option.some.inj (also.home.symm.trans starts.home) }
  switching core rest machine stops := by
    obtain ⟨thread, registers, starts⟩ := initial.starts core
    rw [starts.running] at stops
    cases stops
  table := initial.table

theorem exists_contexts (layout : Layout T) (state : State T) :
    ∃ contexts, Refines layout state contexts := by
  have each (thread : T) : ∃ shown, ShowsAs layout state thread shown := by
    by_cases waits : state.kept thread
    · exact ⟨some _, .inr ⟨waits, rfl⟩⟩
    · by_cases runs : ∃ core registers, state.core core = .running thread registers
      · obtain ⟨core, registers, runs⟩ := runs
        exact ⟨some _, .inl ⟨core, registers, runs, rfl⟩⟩
      · exact ⟨none, waits, fun core registers running => runs ⟨core, registers, running⟩⟩
  exact ⟨fun thread => (each thread).choose, fun thread => (each thread).choose_spec⟩

variable [DecidableEq T] {events : List (Event T)} {contexts : Contexts T}

theorem run_refines (well : Well layout state) (refines : Refines layout state contexts)
    (run : Runs layout state events last) :
    Well layout last ∧ Refines layout last (events.foldl Event.apply contexts) := by
  induction run with
  | start => exact ⟨well, refines⟩
  | @step events event before after earlier next ih =>
      obtain ⟨well_before, refines_before⟩ := ih
      have stepped := step_refines well_before refines_before next
      rw [List.foldl_append]
      cases event with
      | none => exact stepped
      | some event => exact stepped

theorem run_well (initial : Initial layout state) (run : Runs layout state events last) :
    Well layout last := by
  obtain ⟨contexts, refines⟩ := exists_contexts layout state
  exact (run_refines (initial_well initial) refines run).1

/-- A primordial task on the first core, the caller of `scheduler_run` on the second, and a task. -/
inductive SmallThread where
  | primordial
  | caller
  | task
deriving DecidableEq

def smallAddresses : Addresses SmallThread where
  symbols := {
    aeabiReadCls := 0x10000401
    coreData := 0x20000000
    core0 := 0x20000200
    core1 := 0x20000400
    currentTask := 0x20000010
    schedulerInitialFrame := 0x20000014
    schedulerSwitch := 0x10000501
    svcVector := 0x20000600
    schedulerSvcVector := 0x20000700
    switch_apart := by decide
    aligned := by simp [Aligned] }
  address
    | .primordial => 0x20001000
    | .caller => 0
    | .task => 0x20002000
  home
    | .primordial => some 0
    | .caller => some 1
    | .task => none
  bottom
    | .primordial => 0x20041000
    | .caller => 0x20040000
    | .task => 0x20003000
  top
    | .primordial => 0x20042000
    | .caller => 0x20041000
    | .task => 0x20004000
  svcHandler0 := 0x10000601
  schedulerSvcHandler := 0x10000701
  service number := 0x10001001 + 256 * BitVec.ofNat 32 number

def smallPlaces : List (Place SmallThread) :=
  [.cell .primordial, .cell .caller, .cell .task, .current 0, .current 1] ++
    (List.finRange 9).map (.entry .svcVector) ++ (List.finRange 9).map (.entry .schedulerSvcVector) ++
    [.cpuid, .icsr]

theorem mem_smallPlaces (place : Place SmallThread) : place ∈ smallPlaces := by
  cases place with
  | cell thread => cases thread <;> simp [smallPlaces]
  | current core =>
      match core with
      | 0 => simp [smallPlaces]
      | 1 => simp [smallPlaces]
  | entry table number => cases table <;> simp [smallPlaces]
  | cpuid => simp [smallPlaces]
  | icsr => simp [smallPlaces]

theorem smallPlaces_separate : ∀ first ∈ smallPlaces, ∀ second ∈ smallPlaces,
    smallAddresses.place first = smallAddresses.place second → first = second := by
  decide

theorem smallPlaces_outside (thread : SmallThread) : ∀ place ∈ smallPlaces,
    ¬(smallAddresses.bottom thread ≤ (smallAddresses.place place).toNat ∧
      (smallAddresses.place place).toNat < smallAddresses.top thread) := by
  cases thread <;> decide

def smallLayout : Layout SmallThread where
  toAddresses := smallAddresses
  separate first second same :=
    smallPlaces_separate first (mem_smallPlaces first) second (mem_smallPlaces second) same
  outside place thread := smallPlaces_outside thread place (mem_smallPlaces place)
  bounded := by
    intro thread
    cases thread <;> decide
  apart := by
    intro first second
    cases first <;> cases second <;> decide
  one_home := by
    intro first second
    cases first <;> cases second <;> decide
  caller_home := by
    intro thread
    cases thread <;> decide
  multiple := by decide

def smallCore (sp : Word) : Core where
  reg register := if register = .sp then sp else 0
  psp := 0
  unprivileged := false
  process := false
  pc := 0x10002002
  psr := 0x01000000

/-- Both cores are on their main stacks, behind a call of `scheduler_suspend_svc`, and the tables are
filled. -/
def smallState : State SmallThread where
  memory address :=
    match smallPlaces.find? fun place => smallAddresses.place place = address with
    | some (.entry table number) => smallAddresses.entry table number
    | some (.current 0) => smallAddresses.address .primordial
    | _ => if address = 0x10002000 then 4 else 0
  core
    | 0 => .running .primordial (smallCore 0x20041800)
    | 1 => .running .caller (smallCore 0x20040800)
  kept _ := False

theorem smallState_initial : Initial smallLayout smallState where
  starts core := by
    match core with
    | 0 => exact ⟨.primordial, _, rfl, rfl, rfl, by decide, by decide, by decide, by decide⟩
    | 1 => exact ⟨.caller, _, rfl, rfl, rfl, by decide, by decide, by decide, by decide⟩
  kept _ := id
  table := by
    intro table
    cases table <;> decide

theorem smallState_runs : ∃ events last registers, Runs smallLayout smallState events last ∧
    last.core 0 = .running .task registers ∧ last.kept .primordial := by
  have idle (core : Fin 2) (registers : Core) : smallState.core core ≠ .running .task registers := by
    intro runs
    match core with
    | 0 => exact absurd (Mode.running.inj runs).1 (by decide)
    | 1 => exact absurd (Mode.running.inj runs).1 (by decide)
  have created : Step smallLayout smallState _ (smallState.create smallLayout .task smallState.memory
      0x20003fb8 0x10003001 0) :=
    .created id idle (by decide) rfl (fun _ _ => rfl) (by decide) (by decide) (by decide)
  have first := Runs.start.step created
  have ready : Ready smallLayout
      (smallState.create smallLayout .task smallState.memory 0x20003fb8 0x10003001 0)
      0 .primordial (smallCore 0x20041800) := ⟨rfl, by decide⟩
  obtain ⟨memory, machine, preempted⟩ :=
    preempted_step (run_well smallState_initial first) ready (by decide)
  have second := first.step preempted
  obtain ⟨memory, registers, resumed⟩ := resumed_step (run_well smallState_initial second)
    (Function.update_self _ _ _) (show _ = _ ∨ _ from .inr (.inl rfl)) (by decide)
  exact ⟨_, _, registers, second.step resumed, by simp [State.resume], by decide, .inl rfl⟩

end PicoToolkit.Port
