import PicoToolkit.Threads.Blocking

/-!
Which step of the scheduler a step of the machine is, and what becomes of the calls of the tasks that
the step is not about.
-/

namespace PicoToolkit

open Ring Transition Interleaving

variable {cores : Nat} [NeZero cores] {Data Place Entry : Type} {cells : Word → Bool}
  {program : ThreadProgram Data Place Entry} {machine next : Machine cores Data Place}
  {core : Fin cores} {index : Nat} {call : Call cores Place} {task : Word}

def Machine.action (program : ThreadProgram Data Place Entry) (machine : Machine cores Data Place) :
    Label cores Entry → Option (Action cores)
  | .kernel action => some action
  | .act core index =>
      machine.calls[index]?.bind fun call =>
        (program.op call.place).bind fun
          | .word address act => some (.store address (act (machine.kernel.memory address)).1)
          | .data _ => none
          | .service (.state _) _ => none
          | .service (.init futex value flags) _ => some (.futexInit futex value flags)
          | .service (.wake futex all) _ => some (wakeAction core futex all call.owner)
          | .service (.wait futex expected ticks) _ =>
              if call.waiting then none else some (.futexWait core futex expected ticks)
  | _ => none

omit [NeZero cores] in
theorem Machine.busy_of_inside (inside : machine.inside program task) :
    machine.busy program task := by
  obtain ⟨call, isLast, runs⟩ := (Option.any_eq_true _ _).mp inside
  exact (Option.any_eq_true _ _).mpr ⟨call, isLast, (Bool.and_eq_true _ _ ▸ runs).1⟩

theorem Machine.act_found (moved : Machine.step program cells machine (.act core index) = some next)
    (found : machine.calls[index]? = some call) :
    machine.runs core index call ∧ machine.act program core index call = some next := by
  simpa only [Machine.step, found, Option.ite_none_right_eq_some] using moved

theorem Machine.act_word {address : Word} {act : Word → Word × Place}
    (isNext : program.op call.place = some (.word address act))
    (moved : machine.act program core index call = some next) :
    next = machine.advance index call
      (machine.kernel.setMemory address (act (machine.kernel.memory address)).1)
      (act (machine.kernel.memory address)).2 := by
  simp only [Machine.act, isNext] at moved
  exact (Option.some_inj.mp moved).symm

theorem Machine.word_of_act {address : Word} {act : Word → Word × Place}
    (found : machine.calls[index]? = some call)
    (isNext : program.op call.place = some (.word address act))
    (moved : machine.act program core index call = some next) :
    next.kernel.memory address = (act (machine.kernel.memory address)).1 ∧
      ∃ moving ∈ next.calls, moving.place = (act (machine.kernel.memory address)).2 := by
  have bound : index < machine.calls.length := (List.getElem?_eq_some_iff.mp found).1
  rw [Machine.act_word isNext moved]
  exact ⟨Function.update_self _ _ _, _, List.mem_set bound _, rfl⟩

theorem Machine.act_wake {futex : Word} {all : Bool} {resume : Result → Place}
    (isNext : program.op call.place = some (.service (.wake futex all) resume))
    (moved : machine.act program core index call = some next) :
    ∃ kernel, PicoToolkit.step machine.kernel (wakeAction core futex all call.owner) = some kernel ∧
      next = machine.advance index call kernel
        (resume (machine.answer core call.owner (.wake futex all))) := by
  simp only [Machine.act, isNext, ask] at moved
  obtain ⟨kernel, stepped, same⟩ := Option.map_eq_some_iff.mp moved
  exact ⟨kernel, stepped, same.symm⟩

theorem Machine.act_wait {futex expected ticks : Word} {resume : Result → Place}
    (isNext : program.op call.place = some (.service (.wait futex expected ticks) resume))
    (moved : machine.act program core index call = some next) :
    ∃ task, call.owner = .task task ∧
      (call.waiting ∧
          next = machine.advance index call machine.kernel (resume (machine.kernel.answer task)) ∨
        call.waiting = false ∧ ∃ kernel,
          PicoToolkit.step machine.kernel (.futexWait core futex expected ticks) = some kernel ∧
          next = { machine with
            kernel := kernel
            calls := machine.calls.set index { call with waiting := true } }) := by
  simp only [Machine.act, isNext, ask] at moved
  cases owner : call.owner with
  | handler other =>
      rw [owner] at moved
      cases moved
  | task task =>
      rw [owner] at moved
      refine ⟨task, rfl, ?_⟩
      cases begun : call.waiting with
      | true =>
          simp only [begun, if_true] at moved
          exact Or.inl ⟨rfl, (Option.some_inj.mp moved).symm⟩
      | false =>
          simp only [begun, Bool.false_eq_true, if_false] at moved
          obtain ⟨kernel, stepped, same⟩ := Option.map_eq_some_iff.mp moved
          exact Or.inr ⟨rfl, kernel, stepped, same.symm⟩

omit [NeZero cores] in
theorem Machine.action_of_service {request : Request} {resume : Result → Place} {address value : Word}
    (found : machine.calls[index]? = some call)
    (isNext : program.op call.place = some (.service request resume)) :
    machine.action program (.act core index) ≠ some (.store address value) := by
  simp only [Machine.action, found, Option.bind_some, isNext]
  cases request with
  | init => exact nofun
  | state => exact nofun
  | wake =>
      cases call.owner with
      | task => exact nofun
      | handler => exact nofun
  | wait =>
      cases call.waiting with
      | true => exact nofun
      | false => exact nofun

theorem Machine.kernel_of_step {label : Label cores Entry}
    (moved : Machine.step program cells machine label = some next) :
    (machine.action program label).elim (next.kernel = machine.kernel) fun action =>
      PicoToolkit.step machine.kernel action = some next.kernel := by
  cases label with
  | kernel action => exact (Machine.calling_of_kernel moved).2.1
  | call core entry =>
      obtain ⟨_, _, _, rfl⟩ := Machine.calls_of_call moved
      rfl
  | interrupt core entry =>
      obtain rfl := Option.some_inj.mp moved
      rfl
  | act core index =>
      obtain ⟨call, _, found, _⟩ := Machine.calls_of_act moved
      have acted := (Machine.act_found moved found).2
      cases isNext : program.op call.place with
      | none =>
          simp only [Machine.act, isNext] at acted
          cases acted
      | some op =>
          simp only [Machine.action, found, Option.bind_some, isNext]
          cases op with
          | word address act =>
              rw [Machine.act_word isNext acted]
              rfl
          | data act =>
              simp only [Machine.act, isNext] at acted
              obtain rfl := Option.some_inj.mp acted
              rfl
          | service request resume =>
              cases request with
              | init futex value flags =>
                  simp only [Machine.act, isNext, ask] at acted
                  obtain ⟨kernel, stepped, rfl⟩ := Option.map_eq_some_iff.mp acted
                  exact stepped
              | state task =>
                  simp only [Machine.act, isNext, ask] at acted
                  obtain rfl := Option.some_inj.mp acted
                  rfl
              | wake futex all =>
                  obtain ⟨kernel, stepped, rfl⟩ := Machine.act_wake isNext acted
                  exact stepped
              | wait futex expected ticks =>
                  obtain ⟨task, _, happens⟩ := Machine.act_wait isNext acted
                  rcases happens with ⟨begun, rfl⟩ | ⟨begun, kernel, stepped, rfl⟩
                  · simp only [begun, if_true]
                    rfl
                  · simp only [begun, Bool.false_eq_true, if_false]
                    exact stepped

/-- The last call of a task changes when it is created, when it makes another call, and when its call
goes on. -/
theorem Machine.callOf_of_step (owns : machine.Owns) {label : Label cores Entry}
    (moved : Machine.step program cells machine label = some next) (task : Word) :
    next.callOf task = machine.callOf task ∨
      (∃ core descriptor, label = .kernel (.create core task descriptor)) ∨
      (∃ core entry, label = .call core entry ∧ machine.kernel.currentTask core = some task ∧
        machine.busy program task = false) ∨
      ∃ core index call, label = .act core index ∧ machine.calling task = some index ∧
        machine.calls[index]? = some call ∧ call.owner = .task task ∧
        machine.kernel.currentTask core = some task := by
  have appended : ∀ new,
      ((machine.calling task).bind fun index => (machine.calls ++ [new])[index]?) =
        machine.callOf task := by
    intro new
    rw [Machine.callOf]
    cases isCalling : machine.calling task with
    | none => rfl
    | some index => exact owns.found_append isCalling
  cases label with
  | kernel action =>
      by_cases creates : ∃ core descriptor, action = .create core task descriptor
      · obtain ⟨core, descriptor, rfl⟩ := creates
        exact Or.inr (Or.inl ⟨core, descriptor, rfl⟩)
      · simp only [Machine.step, Option.ite_none_right_eq_some] at moved
        obtain ⟨kernel, _, rfl⟩ := Option.map_eq_some_iff.mp moved.2
        refine Or.inl ?_
        cases action with
        | create core created descriptor =>
            have different : task ≠ created := fun same => creates ⟨core, descriptor, same ▸ rfl⟩
            simp only [Machine.callOf, Function.update_of_ne different]
        | _ => rfl
  | call core entry =>
      obtain ⟨caller, isCurrent, idle, rfl⟩ := Machine.calls_of_call moved
      by_cases same : task = caller
      · subst same
        exact Or.inr (Or.inr (Or.inl ⟨core, entry, rfl, isCurrent, idle⟩))
      · refine Or.inl (Eq.trans ?_ (appended ⟨.task caller, program.enter (.thread, entry), false⟩))
        simp only [Machine.callOf, Function.update_of_ne same]
  | interrupt core entry =>
      obtain rfl := Option.some_inj.mp moved
      exact Or.inl (appended _)
  | act core index =>
      obtain ⟨call, moving, found, runs, calls, calling, _⟩ := Machine.calls_of_act moved
      by_cases own : machine.calling task = some index
      · obtain ⟨before, foundBefore, owner⟩ := owns task index own
        obtain rfl := Option.some_inj.mp (found.symm.trans foundBefore)
        exact Or.inr (Or.inr (Or.inr ⟨core, index, call, rfl, own, found, owner,
          (Machine.current_of_runs runs owner).1⟩))
      · refine Or.inl ?_
        simp only [Machine.callOf, calling, calls]
        cases isCalling : machine.calling task with
        | none => rfl
        | some position =>
            have different : index ≠ position := by
              rintro rfl
              exact own isCalling
            exact List.getElem?_set_ne different

theorem Machine.callOf_of_waits (owns : machine.Owns)
    (reached : (scheduler cores).Reachable machine.kernel) {label : Label cores Entry}
    (moved : Machine.step program cells machine label = some next) {futex : Word}
    (waits : machine.kernel.view.Waits task futex) : next.callOf task = machine.callOf task := by
  rcases Machine.callOf_of_step owns moved task with same | ⟨creator, descriptor, rfl⟩ |
      ⟨core, _, rfl, isCurrent, _⟩ | ⟨core, _, _, rfl, _, _, _, isCurrent⟩
  · exact same
  · have enabled := (@view_transition cores _ machine.kernel next.kernel
      (.create creator task descriptor) reached (Machine.calling_of_kernel moved).2.1).1
    exact (enabled.2.1 futex waits).elim
  · exact (notWaits_of_current reached isCurrent waits).elim
  · exact (notWaits_of_current reached isCurrent waits).elim

end PicoToolkit
