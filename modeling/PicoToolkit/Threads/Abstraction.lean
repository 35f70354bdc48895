import PicoToolkit.Futex.Waiting
import PicoToolkit.Threads.Machine

/-!
For a program whose futexes have no flags the scheduler decides only when the calls move on and what
the waits return: every run of the program on the scheduler is an interleaving of its calls.
-/

namespace PicoToolkit

open Ring Transition Interleaving

variable {cores : Nat} [NeZero cores] {Data Place Entry : Type} {cells : Word → Bool}

def Untracked (cells : Word → Bool) (state : State Links cores) : Prop :=
  ∀ futex, cells (state.futex futex).value → (state.futex futex).flags = 0

theorem memory_of_step {state next : State Links cores} {action : Action cores}
    (reached : (scheduler cores).Reachable state) (moved : step state action = some next)
    (untracked : Untracked cells state) {address : Word} (isCell : cells address)
    (others : ∀ value, action ≠ .store address value) :
    next.memory address = state.memory address := by
  obtain ⟨enabled, performed⟩ := view_transition reached moved
  refine View.memory_of_perform enabled performed ?_ ?_
  · rintro futex rfl
    exact untracked futex isCell
  · have writes := event_writes state action
    intro value isStore
    cases action with
    | store other stored =>
        rw [writes] at isStore
        cases isStore
        exact others value rfl
    | futexInit futex guarded flags =>
        rw [writes] at isStore
        cases isStore
    | _ => exact writes.1 _ _ isStore

theorem Untracked.step {state next : State Links cores} {action : Action cores}
    (untracked : Untracked cells state) (reached : (scheduler cores).Reachable state)
    (moved : PicoToolkit.step state action = some next)
    (inits : ∀ futex value flags, action = .futexInit futex value flags → cells value → flags = 0) :
    Untracked cells next := by
  have performed := (view_transition reached moved).2
  intro futex guards
  by_cases init : ∃ value flags, event state action = .initFutex futex value flags
  · obtain ⟨value, flags, isInit⟩ := init
    have writes := event_writes state action
    cases action with
    | futexInit other guarded set =>
        rw [isInit] at writes performed
        cases writes
        have same : next.futex = _ := congrArg View.futex (Option.some_inj.mp performed).symm
        rw [same] at guards ⊢
        simp only [View.initFutex, Function.update_self] at guards ⊢
        exact inits futex value flags rfl guards
    | store address value =>
        rw [isInit] at writes
        cases writes
    | _ => exact (writes.2 _ _ _ isInit).elim
  · have same : next.futex futex = state.futex futex :=
      View.futex_of_perform performed fun value flags isInit => init ⟨value, flags, isInit⟩
    rw [same] at guards ⊢
    exact untracked futex guards

structure Confined (cells : Word → Bool) (program : ThreadProgram Data Place Entry) : Prop where
  word : ∀ place address act, program.op place = some (.word address act) → cells address
  init : ∀ place futex value flags resume,
    program.op place = some (.service (.init futex value flags) resume) → flags = 0

def Machine.shared (cells : Word → Bool) (machine : Machine cores Data Place) :
    Shared Word Word Data Place where
  memory address := if cells address then machine.kernel.memory address else 0
  data := machine.data
  places := machine.calls.map Call.place

def Machine.move (program : ThreadProgram Data Place Entry) (machine : Machine cores Data Place) :
    Label cores Entry → Option (Move Result (Context × Entry))
  | .kernel _ => none
  | .call _ entry => some (.call (.thread, entry))
  | .interrupt _ entry => some (.call (.handler, entry))
  | .act core index =>
      match machine.calls[index]? with
      | none => none
      | some call =>
          match program.op call.place, call.owner with
          | some (.service (.wait _ _ _) _), .task task =>
              if call.waiting then some (.act index (machine.kernel.answer task)) else none
          | some (.service request _), owner =>
              some (.act index (machine.answer core owner request))
          | _, _ => some (.act index (.value 0))

def Machine.Meets (program : ThreadProgram Data Place Entry) (cells : Word → Bool)
    (condition : Shared Word Word Data Place → Move Result (Context × Entry) → Prop)
    (machine : Machine cores Data Place) (label : Label cores Entry) : Prop :=
  match machine.move program label with
  | none => True
  | some move => condition (machine.shared cells) move

instance (program : ThreadProgram Data Place Entry)
    (condition : Shared Word Word Data Place → Move Result (Context × Entry) → Prop)
    [∀ shared move, Decidable (condition shared move)] (machine : Machine cores Data Place)
    (label : Label cores Entry) : Decidable (machine.Meets program cells condition label) := by
  unfold Machine.Meets
  split
  · exact inferInstance
  · exact inferInstance

variable {program : ThreadProgram Data Place Entry} {machine next : Machine cores Data Place}

omit [NeZero cores] in
theorem Machine.places_advance {index : Nat} {call : Call cores Place} {kernel : State Links cores}
    {place : Place} :
    (machine.advance index call kernel place).calls.map Call.place =
      (machine.calls.map Call.place).set index place := by
  rw [Machine.advance, List.map_set]

structure Machine.Sound (cells : Word → Bool) (machine : Machine cores Data Place) : Prop where
  reached : (scheduler cores).Reachable machine.kernel
  untracked : Untracked cells machine.kernel

theorem Machine.Sound.kernel (sound : machine.Sound cells) {action : Action cores}
    (stores : ∀ address value, action = .store address value → ¬cells address)
    (inits : ∀ futex value flags, action = .futexInit futex value flags → cells value → flags = 0)
    {kernel : State Links cores} (moved : PicoToolkit.step machine.kernel action = some kernel) :
    (scheduler cores).Reachable kernel ∧ Untracked cells kernel ∧
      ∀ address, cells address → kernel.memory address = machine.kernel.memory address := by
  refine ⟨sound.reached.step moved, sound.untracked.step sound.reached moved inits, ?_⟩
  intro address isCell
  refine memory_of_step sound.reached moved sound.untracked isCell ?_
  rintro value rfl
  exact stores address value rfl isCell

omit [NeZero cores] in
theorem Machine.shared_advance {index : Nat} {call : Call cores Place} {kernel : State Links cores}
    {place : Place}
    (same : ∀ address, cells address → kernel.memory address = machine.kernel.memory address) :
    (machine.advance index call kernel place).shared cells =
      { machine.shared cells with places := (machine.shared cells).places.set index place } := by
  refine Shared.ext ?_ rfl Machine.places_advance
  funext address
  by_cases isCell : cells address
  · simp only [Machine.shared, isCell, if_true, Machine.advance]
    exact same address isCell
  · simp [Machine.shared, isCell]

/-- A service call of a program is one operation of the call; a wait begins with a step that the
abstraction does not see. -/
theorem ask_shared (confined : Confined cells program) (sound : machine.Sound cells)
    {core : Fin cores} {index : Nat} {call : Call cores Place} {request : Request}
    {resume : Result → Place} (found : machine.calls[index]? = some call)
    (isNext : program.op call.place = some (.service request resume))
    (asked : ask machine core index call resume request = some next) :
    next.Sound cells ∧
      match machine.move program (.act core index) with
      | none => next.shared cells = machine.shared cells
      | some move => program.step (machine.shared cells) move = some (next.shared cells) := by
  have at_ : (machine.shared cells).places[index]? = some call.place := by
    simp [Machine.shared, found]
  have performs : ∀ answer, program.step (machine.shared cells) (.act index answer) =
      some { machine.shared cells with
        places := (machine.shared cells).places.set index (resume answer) } := by
    intro answer
    simp only [Program.step, at_, Option.bind_some, isNext, Option.map_some, Program.perform]
  cases request with
  | init futex value flags =>
      obtain ⟨kernel, moved, rfl⟩ := Option.map_eq_some_iff.mp asked
      obtain ⟨reached, untracked, memory⟩ := sound.kernel (fun _ _ same => by cases same) (by
        intro other guarded set same _
        cases same
        exact confined.init _ _ _ _ _ isNext) moved
      refine ⟨⟨reached, untracked⟩, ?_⟩
      simp only [Machine.move, found, isNext]
      rw [performs, Machine.shared_advance memory]
      rfl
  | wake futex all =>
      simp only [ask] at asked
      obtain ⟨kernel, moved, rfl⟩ := Option.map_eq_some_iff.mp asked
      obtain ⟨reached, untracked, memory⟩ := sound.kernel
        (by
          intro address value same
          cases owner : call.owner with
          | _ =>
              rw [owner] at same
              cases same)
        (by
          intro other value flags same
          cases owner : call.owner with
          | _ =>
              rw [owner] at same
              cases same) moved
      refine ⟨⟨reached, untracked⟩, ?_⟩
      simp only [Machine.move, found, isNext]
      rw [performs, Machine.shared_advance memory]
  | state task =>
      obtain rfl := Option.some_inj.mp asked
      refine ⟨⟨sound.reached, sound.untracked⟩, ?_⟩
      simp only [Machine.move, found, isNext]
      rw [performs, Machine.shared_advance fun _ _ => rfl]
  | wait futex expected ticks =>
      simp only [ask] at asked
      cases owner : call.owner with
      | handler other =>
          rw [owner] at asked
          cases asked
      | task task =>
          rw [owner] at asked
          simp only at asked
          split at asked
          · rename_i waiting
            obtain rfl := Option.some_inj.mp asked
            refine ⟨⟨sound.reached, sound.untracked⟩, ?_⟩
            simp only [Machine.move, found, isNext, owner, waiting, if_true]
            rw [performs, Machine.shared_advance fun _ _ => rfl]
          · rename_i starting
            obtain ⟨kernel, moved, rfl⟩ := Option.map_eq_some_iff.mp asked
            obtain ⟨reached, untracked, memory⟩ := sound.kernel
              (fun _ _ same => by cases same) (fun _ _ _ same => by cases same) moved
            refine ⟨⟨reached, untracked⟩, ?_⟩
            simp only [Machine.move, found, isNext, owner, if_neg starting]
            refine Shared.ext ?_ rfl ?_
            · funext address
              by_cases isCell : cells address
              · simp only [Machine.shared, isCell, if_true]
                exact memory address isCell
              · simp [Machine.shared, isCell]
            · simp only [Machine.shared, List.map_set]
              have same : (machine.calls.map Call.place).set index call.place =
                  machine.calls.map Call.place := by
                obtain ⟨bound, isPlace⟩ := List.getElem?_eq_some_iff.mp at_
                change (machine.shared cells).places.set index call.place = _
                rw [← isPlace, List.set_getElem_self]
                rfl
              exact same

theorem Machine.step_shared (confined : Confined cells program) (sound : machine.Sound cells)
    {label : Label cores Entry} (moved : Machine.step program cells machine label = some next) :
    next.Sound cells ∧
      match machine.move program label with
      | none => next.shared cells = machine.shared cells
      | some move => program.step (machine.shared cells) move = some (next.shared cells) := by
  cases label with
  | kernel action =>
      simp only [Machine.step, Option.ite_none_right_eq_some] at moved
      obtain ⟨allowed, moved⟩ := moved
      obtain ⟨kernel, stepped, rfl⟩ := Option.map_eq_some_iff.mp moved
      have spares : action.spares cells := by
        simp only [foreign, Bool.and_eq_true] at allowed
        exact allowed.1
      obtain ⟨reached, untracked, memory⟩ := sound.kernel
        (by
          rintro address value rfl isCell
          simp [Action.spares, isCell] at spares)
        (by
          rintro futex value flags rfl isCell
          simp [Action.spares, isCell] at spares) stepped
      refine ⟨⟨reached, untracked⟩, Shared.ext ?_ rfl rfl⟩
      funext address
      by_cases isCell : cells address
      · simp only [Machine.shared, isCell, if_true]
        exact memory address isCell
      · simp [Machine.shared, isCell]
  | call core entry =>
      simp only [Machine.step] at moved
      split at moved
      · cases moved
      · split at moved
        · cases moved
        · obtain rfl := Option.some_inj.mp moved
          refine ⟨⟨sound.reached, sound.untracked⟩, ?_⟩
          simp [Machine.move, Program.step, Machine.shared]
  | interrupt core entry =>
      obtain rfl := Option.some_inj.mp moved
      refine ⟨⟨sound.reached, sound.untracked⟩, ?_⟩
      simp [Machine.move, Program.step, Machine.shared]
  | act core index =>
      simp only [Machine.step] at moved
      split at moved
      · cases moved
      · rename_i call found
        rw [Option.ite_none_right_eq_some] at moved
        obtain ⟨_, moved⟩ := moved
        have at_ : (machine.shared cells).places[index]? = some call.place := by
          simp [Machine.shared, found]
        simp only [Machine.act] at moved
        split at moved
        · cases moved
        · rename_i address act isNext
          obtain rfl := Option.some_inj.mp moved
          have isCell : cells address := confined.word _ _ _ isNext
          have stored : PicoToolkit.step machine.kernel
              (.store address (act (machine.kernel.memory address)).1) =
              some (machine.kernel.setMemory address (act (machine.kernel.memory address)).1) := rfl
          have reached : (scheduler cores).Reachable
              (machine.kernel.setMemory address (act (machine.kernel.memory address)).1) :=
            @System.Reachable.step _ _ (scheduler cores) _ _ (.store _ _) sound.reached stored
          refine ⟨⟨reached, ?_⟩, ?_⟩
          · exact sound.untracked.step sound.reached stored fun _ _ _ same => by cases same
          · simp only [Machine.move, found, isNext, Program.step, at_, Option.bind_some,
              Option.map_some, Program.perform, Option.some_inj]
            have read : (machine.shared cells).memory address = machine.kernel.memory address := by
              simp [Machine.shared, isCell]
            rw [read]
            refine Shared.ext ?_ rfl Machine.places_advance.symm
            funext other
            by_cases same : other = address
            · subst same
              simp [Machine.shared, Machine.advance, isCell, State.setMemory]
            · simp [Machine.shared, Machine.advance, State.setMemory, same]
        · rename_i act isNext
          obtain rfl := Option.some_inj.mp moved
          refine ⟨⟨sound.reached, sound.untracked⟩, ?_⟩
          simp only [Machine.move, found, isNext, Program.step, at_, Option.bind_some,
            Option.map_some, Program.perform, Option.some_inj]
          refine Shared.ext rfl rfl ?_
          exact (@Machine.places_advance _ _ _ machine index call machine.kernel _).symm
        · rename_i request resume isNext
          exact ask_shared confined sound found isNext moved

omit [NeZero cores] in
theorem Machine.move_act {core : Fin cores} {index : Nat} {move : Move Result (Context × Entry)}
    (moves : machine.move program (.act core index) = some move) :
    ∃ answer, move = .act index answer := by
  simp only [Machine.move] at moves
  split at moves
  · cases moves
  · split at moves
    · split at moves
      · exact ⟨_, (Option.some_inj.mp moves).symm⟩
      · cases moves
    · exact ⟨_, (Option.some_inj.mp moves).symm⟩
    · exact ⟨_, (Option.some_inj.mp moves).symm⟩

omit [NeZero cores] in
@[simp]
theorem Machine.memory_shared {address : Word} (isCell : cells address) :
    (machine.shared cells).memory address = machine.kernel.memory address := if_pos isCell

theorem shared_of_machine {memory : Word → Word} {data : Data}
    {condition : Shared Word Word Data Place → Move Result (Context × Entry) → Prop}
    (confined : Confined cells program)
    (reached : (machineSystem program cells memory data).Guarded
      (Machine.Meets program cells condition) machine) :
    machine.Sound cells ∧
      (program.system fun shared => shared =
        ⟨fun address => if cells address then memory address else 0, data, []⟩).Guarded condition
        (machine.shared cells) := by
  induction reached with
  | @start machine begins =>
      refine ⟨⟨begins.kernel, begins.untracked⟩, .start (Shared.ext ?_ begins.data ?_)⟩
      · funext address
        by_cases isCell : cells address
        · simp only [Machine.shared, isCell, if_true]
          exact begins.memory address isCell
        · simp [Machine.shared, isCell]
      · simp [Machine.shared, begins.calls]
  | @step machine label next _ meets moved ih =>
      obtain ⟨sound, before⟩ := ih
      obtain ⟨soundNext, follows⟩ := Machine.step_shared confined sound moved
      refine ⟨soundNext, ?_⟩
      rw [Machine.Meets] at meets
      cases isMove : machine.move program label with
      | none =>
          rw [isMove] at follows
          rw [follows]
          exact before
      | some move =>
          rw [isMove] at follows meets
          exact .step before meets follows

theorem invariant_of_machine {memory : Word → Word} {data : Data}
    {condition : Shared Word Word Data Place → Move Result (Context × Entry) → Prop}
    (motive : Shared Word Word Data Place → Prop) (confined : Confined cells program)
    (initially : motive ⟨fun address => if cells address then memory address else 0, data, []⟩)
    (preserved : ∀ shared move next, motive shared → condition shared move →
      program.step shared move = some next → motive next)
    (reached : (machineSystem program cells memory data).Guarded
      (Machine.Meets program cells condition) machine) :
    motive (machine.shared cells) := by
  obtain ⟨_, interleaved⟩ := shared_of_machine confined reached
  refine interleaved.invariant ?_ preserved
  rintro shared rfl
  exact initially

omit [NeZero cores] in
theorem Machine.meets_true (label : Label cores Entry) :
    machine.Meets program cells (fun _ _ => True) label := by
  unfold Machine.Meets
  split
  · trivial
  · trivial

theorem shared_of_step {memory : Word → Word} {data : Data} {label : Label cores Entry}
    (confined : Confined cells program)
    (reached : (machineSystem program cells memory data).Reachable machine)
    (moved : (machineSystem program cells memory data).step machine label = some next) :
    next.shared cells = machine.shared cells ∨
      ∃ move, program.step (machine.shared cells) move = some (next.shared cells) := by
  have always : (machineSystem program cells memory data).Guarded
      (Machine.Meets program cells fun _ _ => True) machine :=
    reached.mono fun _ label _ => Machine.meets_true label
  have sound := (shared_of_machine confined always).1
  have follows := (Machine.step_shared confined sound moved).2
  split at follows
  · exact Or.inl follows
  · exact Or.inr ⟨_, follows⟩

theorem invariant_of_reachable {memory : Word → Word} {data : Data}
    (motive : Shared Word Word Data Place → Prop) (confined : Confined cells program)
    (initially : motive ⟨fun address => if cells address then memory address else 0, data, []⟩)
    (preserved : ∀ shared move next, motive shared →
      program.step shared move = some next → motive next)
    (reached : (machineSystem program cells memory data).Reachable machine) :
    motive (machine.shared cells) :=
  invariant_of_machine motive confined initially
    (fun shared move next holds _ => preserved shared move next holds)
    (reached.mono fun _ label _ => Machine.meets_true label)

section Runs

def Action.plain (words : List Word) : Action 1 → Bool
  | .futexInit _ value flags => !decide (value ∈ words) || decide (flags = 0)
  | _ => true

theorem untracked_of_plain {words : List Word} {state : State Links 1}
    (reached : (scheduler 1).Guarded (fun _ action => action.plain words = true) state) :
    Untracked (fun address => decide (address ∈ words)) state := by
  suffices both : (scheduler 1).Reachable state ∧
      Untracked (fun address => decide (address ∈ words)) state from both.2
  refine reached.invariant (motive := fun state => (scheduler 1).Reachable state ∧
    Untracked (fun address => decide (address ∈ words)) state) ?_ ?_
  · intro state begins
    refine ⟨.start begins, ?_⟩
    obtain ⟨memory, sliceDuration, rfl⟩ := begins
    exact fun _ _ => rfl
  · rintro state action next ⟨before, untracked⟩ plain moved
    refine ⟨before.step moved, untracked.step before moved ?_⟩
    rintro futex value flags rfl guards
    simp only [Action.plain, Bool.or_eq_true, Bool.not_eq_true'] at plain
    rcases plain with absent | none
    · rw [guards] at absent
      cases absent
    · exact of_decide_eq_true none

theorem begins_of_setup {words : List Word} {memory : Word → Word} {setup : List (Action 1)}
    {state : State Links 1}
    (prepared : (scheduler 1).run (fun _ action => action.plain words = true) (bootState 1) setup =
      some state)
    (initially : words.all fun address => decide (state.memory address = memory address))
    (data : Data) :
    (⟨state, data, [], fun _ => none⟩ : Machine 1 Data Place).Begins
      (fun address => decide (address ∈ words)) memory data := by
  have reached := System.run_guarded (.start (initial_bootState 1)) prepared
  refine ⟨reached.reachable, ?_, untracked_of_plain reached, rfl, rfl, rfl⟩
  intro address isCell
  exact of_decide_eq_true (List.all_eq_true.mp initially address (of_decide_eq_true isCell))

/-- A run on one core, found by evaluation: some steps of the scheduler, then steps of the machine. -/
theorem exists_machine (program : ThreadProgram Data Place Entry)
    (guard : Machine 1 Data Place → Label 1 Entry → Prop)
    [∀ machine label, Decidable (guard machine label)] (words : List Word) (memory : Word → Word)
    (data : Data) (setup : List (Action 1)) (labels : List (Label 1 Entry)) (check : Machine 1 Data Place → Prop)
    [DecidablePred check]
    (found : ((scheduler 1).run (fun _ action => action.plain words = true) (bootState 1) setup).any
      fun state => (words.all fun address => decide (state.memory address = memory address)) &&
        ((machineSystem program (fun address => decide (address ∈ words)) memory data).run guard
          ⟨state, data, [], fun _ => none⟩ labels).any fun final => decide (check final)) :
    ∃ machine, (machineSystem program (fun address => decide (address ∈ words)) memory data).Guarded
      guard machine ∧ check machine := by
  obtain ⟨state, prepared, found⟩ := (Option.any_eq_true _ _).mp found
  obtain ⟨initially, found⟩ := (Bool.and_eq_true _ _).mp found
  obtain ⟨final, performed, checked⟩ := (Option.any_eq_true _ _).mp found
  exact ⟨final, System.run_guarded (.start (begins_of_setup prepared initially data)) performed,
    of_decide_eq_true checked⟩

end Runs

end PicoToolkit
