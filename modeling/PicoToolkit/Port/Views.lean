import PicoToolkit.Port.Threads

/-!
What the threads are from outside, and the invariant: it says where the frames of the kept threads are.  A
step is about one thread; the others are told apart from it by the stacks that they lie on.
-/

namespace PicoToolkit.Port

open Thumb

variable {T : Type} {layout : Layout T} {state : State T}

def returnValue (home : Option (Fin 2)) : Word := if home.isSome then returnToMain else returnToProcess

theorem onProcess_returnValue (home : Option (Fin 2)) : onProcess (returnValue home) = home.isNone := by
  cases home with
  | none => rfl
  | some core => exact (show onProcess returnToMain = false by decide)

structure RunsWell (layout : Layout T) (state : State T) (core : Fin 2) (thread : T) (registers : Core) :
    Prop where
  aligned : Aligned registers.stackPointer
  lower : layout.bottom thread ≤ registers.stackPointer.toNat
  upper : registers.stackPointer.toNat ≤ layout.top thread
  process : registers.process = (layout.home thread).isNone
  home : ∀ other, layout.home thread = some other → other = core
  unkept : ¬state.kept thread
  current : state.memory (layout.current core) = layout.address thread
  alone : ∀ other others, state.core other = .running thread others → other = core

structure KeptWell (layout : Layout T) (memory : Word → Word) (thread : T) (frame : Word) : Prop where
  aligned : Aligned frame
  lower : layout.bottom thread ≤ frame.toNat
  pointer : Aligned ((frameContext memory frame).reg .sp)
  above : frame.toNat + 72 ≤ ((frameContext memory frame).reg .sp).toNat
  upper : ((frameContext memory frame).reg .sp).toNat ≤ layout.top thread
  returns : memory frame = returnValue (layout.home thread)

structure ThreadWell (layout : Layout T) (state : State T) (thread : T) : Prop where
  running : ∀ core registers, state.core core = .running thread registers →
    RunsWell layout state core thread registers
  kept : state.kept thread → KeptWell layout state.memory thread (state.memory (layout.cell thread))
  main : state.kept thread → ∀ core, layout.home thread = some core →
    (state.core core).main = state.memory (layout.cell thread)

structure Well (layout : Layout T) (state : State T) : Prop where
  thread : ∀ thread, ThreadWell layout state thread
  switching : ∀ core rest machine, state.core core = .switching rest machine →
    rest = restoreFrame ∧ state.memory (layout.current core) = 0
  table : ∀ table number, state.memory (layout.place (.entry table number)) = layout.entry table number

def ShowsAs (layout : Layout T) (state : State T) (thread : T) : Option View → Prop
  | none => ¬state.kept thread ∧ ∀ core registers, state.core core ≠ .running thread registers
  | some view =>
      (∃ core registers, state.core core = .running thread registers ∧
        view = viewOf layout state.memory thread registers.context) ∨
      (state.kept thread ∧ view = viewOf layout state.memory thread
        (frameContext state.memory (state.memory (layout.cell thread))))

def Refines (layout : Layout T) (state : State T) (contexts : Contexts T) : Prop :=
  ∀ thread, ShowsAs layout state thread (contexts thread)

section Frames

variable {memory : Word → Word} {thread other : T} {core : Fin 2}

structure Untouched (layout : Layout T) (state : State T) (memory : Word → Word) (thread : T) : Prop where
  cell : state.kept thread → memory (layout.cell thread) = state.memory (layout.cell thread)
  live : ∀ address, Live layout state thread address → memory address = state.memory address

theorem viewOf_congr {context : Context} {changed : Word → Word}
    (same : ∀ address : Word, (context.reg .sp).toNat ≤ address.toNat →
      address.toNat < layout.top thread → changed address = memory address) :
    viewOf layout changed thread context = viewOf layout memory thread context := by
  have same_stack : liveStack changed (context.reg .sp).toNat (layout.top thread) =
      liveStack memory (context.reg .sp).toNat (layout.top thread) := by
    funext address
    unfold liveStack
    split
    · rename_i inside
      exact same address inside.1 inside.2
    · rfl
  unfold viewOf
  rw [same_stack]

theorem answer_viewOf {value : Word} {context : Context} :
    (viewOf layout memory thread context).answer value =
      viewOf layout memory thread (answer value context) := rfl

theorem unstacked_answer {frame value : Word} {kept : Reg → Word} {unprivileged process : Bool} :
    unstacked (Function.update memory frame value) frame kept unprivileged process =
      answer value (unstacked memory frame kept unprivileged process) := by
  have same (index : Nat) (inside : index < 7) :
      Function.update memory frame value (wordAt frame (index + 1)) = memory (wordAt frame (index + 1)) :=
    Function.update_of_ne (wordAt_ne_base (by omega)).symm _ _
  have pointer : unstackedPointer (Function.update memory frame value) frame =
      unstackedPointer memory frame := by
    unfold unstackedPointer
    rw [same 6 (by decide)]
  have registers : unstackedReg (Function.update memory frame value) frame kept =
      Function.update (unstackedReg memory frame kept) .r0 value := by
    funext register
    cases register with
    | r0 =>
        rw [Function.update_self, unstackedReg, wordAt_zero, Function.update_self]
    | r1 => exact same 0 (by decide)
    | r2 => exact same 1 (by decide)
    | r3 => exact same 2 (by decide)
    | r12 => exact same 3 (by decide)
    | lr => exact same 4 (by decide)
    | sp => exact pointer
    | _ => rfl
  unfold unstacked answer
  rw [registers, same 5 (by decide), same 6 (by decide)]

theorem frameContext_answer {frame value : Word} :
    frameContext (Function.update memory (wordAt frame 10) value) frame =
      answer value (frameContext memory frame) := by
  have same (index : Nat) (inside : index < 10) :
      Function.update memory (wordAt frame 10) value (wordAt frame index) = memory (wordAt frame index) :=
    Function.update_of_ne (wordAt_ne inside (by decide)) _ _
  have first : Function.update memory (wordAt frame 10) value frame = memory frame := by
    have word := same 0 (by decide)
    rwa [wordAt_zero] at word
  unfold frameContext
  rw [unstacked_answer, same 1 (by decide), first]
  congr 1
  apply unstacked_congr
  rw [forall_calleeSaved]
  exact ⟨same 2 (by decide), same 3 (by decide), same 4 (by decide), same 5 (by decide),
    same 6 (by decide), same 7 (by decide), same 8 (by decide), same 9 (by decide)⟩

theorem KeptWell.word {frame : Word} (well : KeptWell layout memory thread frame) {index : Nat}
    (inside : index < 18) :
    (wordAt frame index).toNat = frame.toNat + 4 * index ∧
      frame.toNat + 4 * index < layout.top thread := by
  have above := well.above
  have upper := well.upper
  have bounded := layout.bounded thread
  exact ⟨toNat_wordAt (by omega), by omega⟩

theorem KeptWell.congr {frame : Word} {changed : Word → Word} (well : KeptWell layout memory thread frame)
    (same : ∀ address : Word, frame.toNat ≤ address.toNat → address.toNat < layout.top thread →
      changed address = memory address) :
    frameContext changed frame = frameContext memory frame ∧
      KeptWell layout changed thread frame := by
  have context : frameContext changed frame = frameContext memory frame := by
    apply frameContext_congr
    intro index inside
    obtain ⟨place, below⟩ := well.word inside
    exact same _ (by omega) (by omega)
  have first : changed frame = memory frame := by
    obtain ⟨place, below⟩ := well.word (show 0 < 18 by decide)
    exact same _ (Nat.le_refl _) (by omega)
  refine ⟨context, well.aligned, well.lower, ?_, ?_, ?_, ?_⟩
  · rw [context]
    exact well.pointer
  · rw [context]
    exact well.above
  · rw [context]
    exact well.upper
  · rw [first]
    exact well.returns

theorem untouched_stays {next : State T} {shown : Option View} (well : ThreadWell layout state thread)
    (shows_as : ShowsAs layout state thread shown)
    (untouched : Untouched layout state next.memory thread)
    (kept : next.kept thread ↔ state.kept thread)
    (running : ∀ core registers,
      next.core core = .running thread registers ↔ state.core core = .running thread registers)
    (current : ∀ core registers, state.core core = .running thread registers →
      next.memory (layout.current core) = state.memory (layout.current core))
    (main : state.kept thread → ∀ core, layout.home thread = some core →
      (next.core core).main = (state.core core).main) :
    ThreadWell layout next thread ∧ ShowsAs layout next thread shown := by
  have framed (waits : state.kept thread) :=
    (well.kept waits).congr fun address low high =>
      untouched.live address (.inr ⟨waits, low, high⟩)
  constructor
  · refine ⟨fun core registers runs => ?_, fun waits => ?_, fun waits core home => ?_⟩
    · have ran := (running core registers).mp runs
      have runs_well := well.running core registers ran
      exact {
        aligned := runs_well.aligned
        lower := runs_well.lower
        upper := runs_well.upper
        process := runs_well.process
        home := runs_well.home
        unkept := fun waits => runs_well.unkept (kept.mp waits)
        current := (current core registers ran).trans runs_well.current
        alone := fun other others elsewhere =>
          runs_well.alone other others ((running other others).mp elsewhere) }
    · rw [untouched.cell (kept.mp waits)]
      exact (framed (kept.mp waits)).2
    · rw [untouched.cell (kept.mp waits), main (kept.mp waits) core home]
      exact well.main (kept.mp waits) core home
  · cases shown with
    | none =>
        exact ⟨fun waits => shows_as.1 (kept.mp waits), fun core registers runs =>
          shows_as.2 core registers ((running core registers).mp runs)⟩
    | some view =>
        rcases shows_as with ⟨core, registers, runs, rfl⟩ | ⟨waits, rfl⟩
        · refine .inl ⟨core, registers, (running core registers).mpr runs, ?_⟩
          symm
          exact viewOf_congr fun address low high =>
            untouched.live address (.inl ⟨core, registers, runs, low, high⟩)
        · have above := (well.kept waits).above
          refine .inr ⟨kept.mpr waits, ?_⟩
          rw [untouched.cell waits, (framed waits).1]
          symm
          exact viewOf_congr fun address low high =>
            untouched.live address (.inr ⟨waits, by omega, high⟩)

inductive Mine (layout : Layout T) (core : Fin 2) (thread : T) (address : Word) : Prop where
  | stack (within : layout.Within thread address)
  | cell (same : address = layout.place (.cell thread))
  | current (same : address = layout.place (.current core))
  | cpuid (same : address = layout.place .cpuid)
  | icsr (same : address = layout.place .icsr)

theorem place_not_mine (place : Place T) (cell : place ≠ .cell thread) (current : place ≠ .current core)
    (cpuid : place ≠ .cpuid) (icsr : place ≠ .icsr) : ¬Mine layout core thread (layout.place place) := by
  intro mine
  cases mine with
  | stack within => exact layout.outside _ _ within
  | cell same => exact cell (layout.separate same)
  | current same => exact current (layout.separate same)
  | cpuid same => exact cpuid (layout.separate same)
  | icsr same => exact icsr (layout.separate same)

theorem within_not_mine {address : Word} (within : layout.Within other address)
    (different : other ≠ thread) : ¬Mine layout core thread address := by
  intro mine
  cases mine with
  | stack mine =>
      have apart := layout.apart other thread different
      obtain ⟨low, high⟩ := within
      obtain ⟨lower, upper⟩ := mine
      omega
  | cell same => exact layout.outside _ _ (same ▸ within)
  | current same => exact layout.outside _ _ (same ▸ within)
  | cpuid same => exact layout.outside _ _ (same ▸ within)
  | icsr same => exact layout.outside _ _ (same ▸ within)

theorem live_within (well : ThreadWell layout state other) {address : Word}
    (live : Live layout state other address) : layout.Within other address := by
  rcases live with ⟨core, registers, runs, low, high⟩ | ⟨waits, low, high⟩
  · exact ⟨Nat.le_trans (well.running core registers runs).lower low, high⟩
  · exact ⟨Nat.le_trans (well.kept waits).lower low, high⟩

theorem untouched_of_mine (core : Fin 2) (well : ThreadWell layout state other) (different : other ≠ thread)
    (frame : ∀ address, ¬Mine layout core thread address → memory address = state.memory address) :
    Untouched layout state memory other where
  cell _ :=
    frame _ (place_not_mine (.cell other) (by simpa using different) (by simp) (by simp) (by simp))
  live address live := frame address (within_not_mine (live_within well live) different)

theorem running_other {registers others : Core} (running : state.core core = .running thread registers)
    (different : other ≠ thread) : state.core core ≠ .running other others := by
  intro runs
  rw [running] at runs
  cases runs
  exact different rfl

theorem ThreadWell.shown (well : ThreadWell layout state thread) (waits : state.kept thread)
    {shown : Option View} (shows_as : ShowsAs layout state thread shown) :
    shown = some (viewOf layout state.memory thread
      (frameContext state.memory (state.memory (layout.cell thread)))) := by
  cases shown with
  | none => exact absurd waits shows_as.1
  | some view =>
      rcases shows_as with ⟨core, registers, runs, _⟩ | ⟨_, rfl⟩
      · exact absurd waits (well.running core registers runs).unkept
      · rfl

structure ThreadStep (layout : Layout T) (state next : State T) (thread : T) : Prop where
  untouched : ∀ other, other ≠ thread → Untouched layout state next.memory other
  kept : ∀ other, other ≠ thread → (next.kept other ↔ state.kept other)
  running : ∀ other, other ≠ thread → ∀ core registers,
    next.core core = .running other registers ↔ state.core core = .running other registers
  current : ∀ other, other ≠ thread → ∀ core registers, state.core core = .running other registers →
    next.memory (layout.current core) = state.memory (layout.current core)
  main : ∀ other, other ≠ thread → state.kept other → ∀ core, layout.home other = some core →
    (next.core core).main = (state.core core).main
  switching : ∀ core rest machine, next.core core = .switching rest machine →
    rest = restoreFrame ∧ next.memory (layout.current core) = 0
  table : ∀ table number, next.memory (layout.place (.entry table number)) =
    state.memory (layout.place (.entry table number))

namespace ThreadStep

variable {next : State T} [DecidableEq T] {contexts : Contexts T}

theorem refines (step : ThreadStep layout state next thread) (well : Well layout state)
    (refines : Refines layout state contexts) {shown : Option View}
    (own : ThreadWell layout next thread) (shows_own : ShowsAs layout next thread shown) :
    Well layout next ∧ Refines layout next (Function.update contexts thread shown) := by
  have others (other : T) (different : other ≠ thread) :=
    untouched_stays (well.thread other) (refines other) (step.untouched other different)
      (step.kept other different) (step.running other different) (step.current other different)
      (step.main other different)
  constructor
  · refine ⟨fun other => ?_, step.switching, fun table number => (step.table table number).trans
      (well.table table number)⟩
    by_cases same : other = thread
    · exact same ▸ own
    · exact (others other same).1
  · intro other
    by_cases same : other = thread
    · subst same
      rw [Function.update_self]
      exact shows_own
    · rw [Function.update_of_ne same]
      exact (others other same).2

theorem runs (step : ThreadStep layout state next thread) (well : Well layout state)
    (refines : Refines layout state contexts) {registers : Core}
    (runs : next.core core = .running thread registers)
    (own : RunsWell layout next core thread registers) :
    Well layout next ∧ Refines layout next (Function.update contexts thread
      (some (viewOf layout next.memory thread registers.context))) := by
  refine step.refines well refines ?_ (.inl ⟨core, registers, runs, rfl⟩)
  refine ⟨fun elsewhere others goes => ?_, fun waits => absurd waits own.unkept,
    fun waits => absurd waits own.unkept⟩
  have here := own.alone elsewhere others goes
  subst here
  rw [runs] at goes
  cases goes
  exact own

end ThreadStep

structure CoreStep (layout : Layout T) (state next : State T) (core : Fin 2) (thread : T) : Prop where
  frame : ∀ address, ¬Mine layout core thread address → next.memory address = state.memory address
  elsewhere : ∀ other, other ≠ core → next.core other = state.core other
  kept : ∀ other, other ≠ thread → (next.kept other ↔ state.kept other)
  before : ∀ other, other ≠ thread → ∀ registers, state.core core ≠ .running other registers
  after : ∀ other, other ≠ thread → ∀ registers, next.core core ≠ .running other registers
  main : ∀ other, other ≠ thread → layout.home other = some core →
    (next.core core).main = (state.core core).main
  switching : ∀ rest machine, next.core core = .switching rest machine →
    rest = restoreFrame ∧ next.memory (layout.current core) = 0

theorem CoreStep.alone {next : State T} (step : CoreStep layout state next core thread)
    (before : ∀ elsewhere registers, state.core elsewhere = .running thread registers → elsewhere = core)
    (elsewhere : Fin 2) (registers : Core) (runs : next.core elsewhere = .running thread registers) :
    elsewhere = core := by
  by_cases here : elsewhere = core
  · exact here
  · rw [step.elsewhere elsewhere here] at runs
    exact before elsewhere registers runs

theorem CoreStep.threadStep {next : State T} (step : CoreStep layout state next core thread)
    (well : Well layout state) : ThreadStep layout state next thread where
  untouched other different := untouched_of_mine core (well.thread other) different step.frame
  kept := step.kept
  running other different elsewhere registers := by
    by_cases same : elsewhere = core
    · subst same
      exact ⟨fun runs => absurd runs (step.after other different registers),
        fun runs => absurd runs (step.before other different registers)⟩
    · rw [step.elsewhere elsewhere same]
  current other different elsewhere registers runs := by
    apply step.frame
    apply place_not_mine (.current elsewhere) <;> simp
    rintro rfl
    exact step.before other different registers runs
  main other different _ elsewhere home := by
    by_cases here : elsewhere = core
    · subst here
      exact step.main other different home
    · rw [step.elsewhere elsewhere here]
  switching elsewhere rest machine stops := by
    by_cases here : elsewhere = core
    · subst here
      exact step.switching rest machine stops
    · rw [step.elsewhere elsewhere here] at stops
      obtain ⟨same, idle⟩ := well.switching elsewhere rest machine stops
      refine ⟨same, ?_⟩
      rw [← idle]
      apply step.frame
      apply place_not_mine (.current elsewhere) <;> simp [here]
  table table number := by
    apply step.frame
    apply place_not_mine (.entry table number) <;> simp

end Frames

end PicoToolkit.Port
