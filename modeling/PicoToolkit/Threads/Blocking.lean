import PicoToolkit.Futex.Wakes
import PicoToolkit.Threads.Abstraction

/-!
When a thread is blocked inside a call: only by the wait at which the call is.
-/

namespace PicoToolkit

open Ring Transition Interleaving

variable {cores : Nat} [NeZero cores]

variable {Data Place Entry : Type} {cells : Word → Bool} {program : ThreadProgram Data Place Entry}
  {machine next : Machine cores Data Place} {core : Fin cores} {index : Nat}

/-- The next operation of a call, other than the begin of a wait: the call goes on to some place, and
the scheduler has made no task wait. -/
structure Machine.Advances (machine next : Machine cores Data Place) (index : Nat)
    (call : Call cores Place) : Prop where
  calling : next.calling = machine.calling
  calls : ∃ place, next.calls = machine.calls.set index { call with place := place, waiting := false }
  kernel : next.kernel = machine.kernel ∨ ∃ action,
    PicoToolkit.step machine.kernel action = some next.kernel ∧
      ∀ core futex expected ticks, action ≠ .futexWait core futex expected ticks

structure Machine.Blocks (program : ThreadProgram Data Place Entry)
    (machine next : Machine cores Data Place) (core : Fin cores) (index : Nat)
    (call : Call cores Place) : Prop where
  calling : next.calling = machine.calling
  calls : next.calls = machine.calls.set index { call with waiting := true }
  begins : call.waiting = false
  owner : ∃ task, call.owner = .task task
  kernel : ∃ futex expected ticks resume,
    program.op call.place = some (.service (.wait futex expected ticks) resume) ∧
      PicoToolkit.step machine.kernel (.futexWait core futex expected ticks) = some next.kernel

theorem Machine.act_cases (moved : Machine.step program cells machine (.act core index) = some next) :
    ∃ call, machine.calls[index]? = some call ∧ machine.runs core index call ∧
      (machine.Advances next index call ∨ machine.Blocks program next core index call) := by
  simp only [Machine.step] at moved
  split at moved
  · cases moved
  · rename_i call found
    rw [Option.ite_none_right_eq_some] at moved
    obtain ⟨runs, moved⟩ := moved
    refine ⟨call, found, runs, ?_⟩
    simp only [Machine.act] at moved
    split at moved
    · cases moved
    · rename_i address act isNext
      obtain rfl := Option.some_inj.mp moved
      refine Or.inl ⟨rfl, ⟨_, rfl⟩, Or.inr ⟨.store address _, rfl, ?_⟩⟩
      exact fun _ _ _ _ same => by cases same
    · rename_i act isNext
      obtain rfl := Option.some_inj.mp moved
      exact Or.inl ⟨rfl, ⟨_, rfl⟩, Or.inl rfl⟩
    · rename_i request resume isNext
      cases request with
      | init futex value flags =>
          obtain ⟨kernel, stepped, rfl⟩ := Option.map_eq_some_iff.mp moved
          refine Or.inl ⟨rfl, ⟨_, rfl⟩, Or.inr ⟨_, stepped, ?_⟩⟩
          exact fun _ _ _ _ same => by cases same
      | wake futex all =>
          obtain ⟨kernel, stepped, rfl⟩ := Option.map_eq_some_iff.mp moved
          refine Or.inl ⟨rfl, ⟨_, rfl⟩, Or.inr ⟨_, stepped, ?_⟩⟩
          intro _ _ _ _ same
          cases owner : call.owner with
          | _ =>
              rw [owner] at same
              cases same
      | state task =>
          obtain rfl := Option.some_inj.mp moved
          exact Or.inl ⟨rfl, ⟨_, rfl⟩, Or.inl rfl⟩
      | wait futex expected ticks =>
          simp only [ask] at moved
          cases owner : call.owner with
          | handler other =>
              rw [owner] at moved
              cases moved
          | task task =>
              rw [owner] at moved
              simp only at moved
              split at moved
              · obtain rfl := Option.some_inj.mp moved
                exact Or.inl ⟨rfl, ⟨_, rfl⟩, Or.inl rfl⟩
              · rename_i notWaiting
                obtain ⟨kernel, stepped, rfl⟩ := Option.map_eq_some_iff.mp moved
                have begins := Bool.eq_false_of_not_eq_true notWaiting
                exact Or.inr ⟨rfl, by rw [owner], begins, ⟨task, owner⟩, _, _, _, _, isNext, stepped⟩

theorem Machine.calls_of_act (moved : Machine.step program cells machine (.act core index) = some next) :
    ∃ call moving, machine.calls[index]? = some call ∧ machine.runs core index call ∧
      next.calls = machine.calls.set index moving ∧ next.calling = machine.calling ∧
      moving.owner = call.owner := by
  obtain ⟨call, found, runs, happens⟩ := Machine.act_cases moved
  rcases happens with advances | blocks
  · obtain ⟨place, calls⟩ := advances.calls
    exact ⟨call, _, found, runs, calls, advances.calling, rfl⟩
  · exact ⟨call, _, found, runs, blocks.calls, blocks.calling, rfl⟩

omit [NeZero cores] in
theorem Machine.callOf_eq {task : Word} {call : Call cores Place} :
    machine.callOf task = some call ↔
      ∃ index, machine.calling task = some index ∧ machine.calls[index]? = some call :=
  Option.bind_eq_some_iff

omit [NeZero cores] in
theorem Machine.current_of_runs {call : Call cores Place} {task : Word}
    (runs : machine.runs core index call) (owner : call.owner = .task task) :
    machine.kernel.currentTask core = some task ∧ machine.calling task = some index := by
  simp only [Machine.runs, owner, Bool.and_eq_true, decide_eq_true_eq] at runs
  exact runs

def Machine.Owns (machine : Machine cores Data Place) : Prop :=
  ∀ task index, machine.calling task = some index →
    ∃ call, machine.calls[index]? = some call ∧ call.owner = .task task

theorem Machine.calling_of_kernel {action : Action cores}
    (moved : Machine.step program cells machine (.kernel action) = some next) :
    foreign program cells machine action ∧
      PicoToolkit.step machine.kernel action = some next.kernel ∧ next.calls = machine.calls ∧
      next.data = machine.data ∧
      ∀ task index, next.calling task = some index → machine.calling task = some index := by
  simp only [Machine.step, Option.ite_none_right_eq_some] at moved
  obtain ⟨allowed, moved⟩ := moved
  obtain ⟨kernel, stepped, rfl⟩ := Option.map_eq_some_iff.mp moved
  refine ⟨allowed, stepped, rfl, rfl, ?_⟩
  intro task index isCalling
  cases action with
  | create core created descriptor =>
      by_cases same : task = created
      · rw [same] at isCalling
        simp at isCalling
      · simpa [Function.update_of_ne same] using isCalling
  | _ => exact isCalling

theorem Machine.calls_of_call {entry : Entry}
    (moved : Machine.step program cells machine (.call core entry) = some next) :
    ∃ caller, machine.kernel.currentTask core = some caller ∧ machine.busy program caller = false ∧
      next = { machine with
        calls := machine.calls ++ [⟨.task caller, program.enter (.thread, entry), false⟩]
        calling := Function.update machine.calling caller (some machine.calls.length) } := by
  simp only [Machine.step] at moved
  split at moved
  · cases moved
  · rename_i caller isCurrent
    rw [Option.ite_none_left_eq_some] at moved
    obtain ⟨idle, moved⟩ := moved
    exact ⟨caller, isCurrent, Bool.eq_false_of_not_eq_true idle, (Option.some_inj.mp moved).symm⟩

omit [NeZero cores] in
theorem Machine.Owns.found_append (owns : machine.Owns) {task : Word} {new : Call cores Place}
    (isCalling : machine.calling task = some index) :
    (machine.calls ++ [new])[index]? = machine.calls[index]? := by
  obtain ⟨call, found, _⟩ := owns task index isCalling
  exact List.getElem?_append_left (List.getElem?_eq_some_iff.mp found).1

theorem Machine.Owns.step (owns : machine.Owns) {label : Label cores Entry}
    (moved : Machine.step program cells machine label = some next) : next.Owns := by
  intro task other isCalling
  cases label with
  | kernel action =>
      obtain ⟨_, _, calls, _, keeps⟩ := Machine.calling_of_kernel moved
      rw [calls]
      exact owns task other (keeps task other isCalling)
  | call core entry =>
      obtain ⟨caller, _, _, rfl⟩ := Machine.calls_of_call moved
      by_cases same : task = caller
      · subst same
        simp only [Function.update_self, Option.some_inj] at isCalling
        subst isCalling
        exact ⟨⟨.task task, program.enter (.thread, entry), false⟩, by simp, rfl⟩
      · simp only [Function.update_of_ne same] at isCalling
        rw [owns.found_append isCalling]
        exact owns task other isCalling
  | interrupt core entry =>
      obtain rfl := Option.some_inj.mp moved
      rw [owns.found_append isCalling]
      exact owns task other isCalling
  | act core index =>
      obtain ⟨call, moving, found, _, calls, calling, sameOwner⟩ := Machine.calls_of_act moved
      have bound : index < machine.calls.length := (List.getElem?_eq_some_iff.mp found).1
      rw [calling] at isCalling
      obtain ⟨before, foundBefore, owner⟩ := owns task other isCalling
      by_cases same : other = index
      · subst same
        obtain rfl : call = before := Option.some_inj.mp (found.symm.trans foundBefore)
        refine ⟨moving, ?_, sameOwner.trans owner⟩
        rw [calls, List.getElem?_set_self bound]
      · refine ⟨before, ?_, owner⟩
        rw [calls, List.getElem?_set_ne (Ne.symm same)]
        exact foundBefore

omit [NeZero cores] in
theorem Machine.inside_of_callOf {task : Word} (same : machine.callOf task = next.callOf task)
    (inside : next.inside program task) : machine.inside program task := by
  rw [Machine.inside, same]
  exact inside

/-- A thread inside a call that waits after a step waited before at the same place, or the step is the
begin of its own wait, which finds the value that it expects. -/
theorem Machine.waits_of_step (owns : machine.Owns)
    (reached : (scheduler cores).Reachable machine.kernel) {label : Label cores Entry}
    (moved : Machine.step program cells machine label = some next) {task futex : Word}
    (inside : next.inside program task) (waits : next.kernel.view.Waits task futex) :
    machine.callOf task = next.callOf task ∧ machine.kernel.view.Waits task futex ∨
      ∃ core index call expected ticks resume, label = .act core index ∧
        machine.calls[index]? = some call ∧ call.owner = .task task ∧ call.waiting = false ∧
        next.callOf task = some { call with waiting := true } ∧
        program.op call.place = some (.service (.wait futex expected ticks) resume) ∧
        PicoToolkit.step machine.kernel (.futexWait core futex expected ticks) = some next.kernel ∧
        (machine.kernel.futexValue futex = expected ∨
          machine.kernel.futexValue futex = waitValue (machine.kernel.futex futex) expected) := by
  cases label with
  | kernel action =>
      obtain ⟨allowed, stepped, calls, _, keeps⟩ := Machine.calling_of_kernel moved
      obtain ⟨call, isLast⟩ : ∃ call, next.callOf task = some call := by
        rw [Machine.inside, Option.any_eq_true] at inside
        obtain ⟨call, isLast, _⟩ := inside
        exact ⟨call, isLast⟩
      have same : machine.callOf task = next.callOf task := by
        obtain ⟨index, isCalling, found⟩ := Machine.callOf_eq.mp isLast
        rw [isLast]
        exact Machine.callOf_eq.mpr ⟨index, keeps task index isCalling, calls ▸ found⟩
      rcases PicoToolkit.waits_of_step reached stepped waits with old |
          ⟨core, value, ticks, rfl, runs, _⟩
      · exact Or.inl ⟨same, old⟩
      · simp [foreign, Action.caller, runs, Machine.inside_of_callOf same inside] at allowed
  | call core entry =>
      obtain ⟨caller, isCurrent, _, rfl⟩ := Machine.calls_of_call moved
      refine Or.inl ⟨?_, waits⟩
      by_cases same : task = caller
      · subst same
        exact (notWaits_of_current reached isCurrent waits).elim
      · simp only [Machine.callOf, Function.update_of_ne same]
        cases isCalling : machine.calling task with
        | none => rfl
        | some index => exact (owns.found_append isCalling).symm
  | interrupt core entry =>
      obtain rfl := Option.some_inj.mp moved
      refine Or.inl ⟨?_, waits⟩
      simp only [Machine.callOf]
      cases isCalling : machine.calling task with
      | none => rfl
      | some index => exact (owns.found_append isCalling).symm
  | act core index =>
      obtain ⟨call, found, runs, happens⟩ := Machine.act_cases moved
      obtain ⟨_, moving, foundAgain, _, calls, calling, sameOwner⟩ := Machine.calls_of_act moved
      obtain rfl := Option.some_inj.mp (found.symm.trans foundAgain)
      have bound : index < machine.calls.length := (List.getElem?_eq_some_iff.mp found).1
      have elsewhere : machine.calling task ≠ some index → machine.callOf task = next.callOf task := by
        intro other
        simp only [Machine.callOf, calling]
        cases isCalling : machine.calling task with
        | none => rfl
        | some position =>
            have different : index ≠ position := by
              rintro rfl
              exact other isCalling
            simp only [Option.bind_some, calls, List.getElem?_set_ne different]
      -- the thread at the call runs, so that it waits for nothing before the step
      have running : machine.calling task = some index →
          call.owner = .task task ∧ machine.kernel.currentTask core = some task := by
        intro isCalling
        obtain ⟨before, foundBefore, owner⟩ := owns task index isCalling
        obtain rfl := Option.some_inj.mp (found.symm.trans foundBefore)
        exact ⟨owner, (Machine.current_of_runs runs owner).1⟩
      have stays : machine.kernel.view.Waits task futex →
          machine.callOf task = next.callOf task ∧ machine.kernel.view.Waits task futex := by
        intro old
        refine ⟨elsewhere fun isCalling => ?_, old⟩
        exact notWaits_of_current reached (running isCalling).2 old
      rcases happens with advances | blocks
      · rcases advances.kernel with same | ⟨action, stepped, noWait⟩
        · rw [same] at waits
          exact Or.inl (stays waits)
        · rcases PicoToolkit.waits_of_step reached stepped waits with old | ⟨on, value, ticks, same, _⟩
          · exact Or.inl (stays old)
          · exact (noWait on _ value ticks same).elim
      · obtain ⟨entry, expected, ticks, resume, isNext, stepped⟩ := blocks.kernel
        rcases PicoToolkit.waits_of_step reached stepped waits with old | ⟨on, _, _, same, isCurrent, matched⟩
        · exact Or.inl (stays old)
        · cases same
          obtain ⟨caller, isOwner⟩ := blocks.owner
          obtain ⟨isCaller, callerCalls⟩ := Machine.current_of_runs runs isOwner
          obtain rfl : caller = task := Option.some_inj.mp (isCaller.symm.trans isCurrent)
          refine Or.inr ⟨core, index, call, expected, ticks, resume, rfl, found, isOwner,
            blocks.begins, ?_, isNext, stepped, matched⟩
          rw [Machine.callOf, calling, callerCalls, Option.bind_some, blocks.calls,
            List.getElem?_set_self bound]

/-- The last call of a task is its own, and while the task runs code of the program it waits only
where its call says so. -/
structure Machine.Attentive (program : ThreadProgram Data Place Entry)
    (machine : Machine cores Data Place) : Prop where
  own : machine.Owns
  waits : ∀ task call, machine.callOf task = some call → machine.inside program task →
    call.waiting = false → ∀ futex, ¬machine.kernel.view.Waits task futex
  atWait : ∀ call ∈ machine.calls, call.waiting → ∃ futex expected ticks resume,
    program.op call.place = some (.service (.wait futex expected ticks) resume)

theorem Machine.atWait_of_step
    (atWait : ∀ call ∈ machine.calls, call.waiting → ∃ futex expected ticks resume,
      program.op call.place = some (.service (.wait futex expected ticks) resume))
    {label : Label cores Entry} (moved : Machine.step program cells machine label = some next) :
    ∀ call ∈ next.calls, call.waiting → ∃ futex expected ticks resume,
      program.op call.place = some (.service (.wait futex expected ticks) resume) := by
  intro other member isWaiting
  cases label with
  | kernel action =>
      obtain ⟨_, _, calls, _⟩ := Machine.calling_of_kernel moved
      exact atWait other (calls ▸ member) isWaiting
  | call core entry =>
      obtain ⟨caller, _, _, rfl⟩ := Machine.calls_of_call moved
      rcases List.mem_append.mp member with before | isNew
      · exact atWait other before isWaiting
      · rw [List.mem_singleton.mp isNew] at isWaiting
        cases isWaiting
  | interrupt core entry =>
      obtain rfl := Option.some_inj.mp moved
      rcases List.mem_append.mp member with before | isNew
      · exact atWait other before isWaiting
      · rw [List.mem_singleton.mp isNew] at isWaiting
        cases isWaiting
  | act core index =>
      obtain ⟨call, found, runs, happens⟩ := Machine.act_cases moved
      rcases happens with advances | blocks
      · obtain ⟨place, placed⟩ := advances.calls
        rw [placed] at member
        rcases List.mem_or_eq_of_mem_set member with old | rfl
        · exact atWait other old isWaiting
        · cases isWaiting
      · rw [blocks.calls] at member
        rcases List.mem_or_eq_of_mem_set member with old | rfl
        · exact atWait other old isWaiting
        · obtain ⟨futex, expected, ticks, resume, isNext, _⟩ := blocks.kernel
          exact ⟨futex, expected, ticks, resume, isNext⟩

theorem Machine.Attentive.step (attentive : machine.Attentive program)
    (reached : (scheduler cores).Reachable machine.kernel) {label : Label cores Entry}
    (moved : Machine.step program cells machine label = some next) : next.Attentive program := by
  refine ⟨attentive.own.step moved, ?_, Machine.atWait_of_step attentive.atWait moved⟩
  intro task call isLast inside notWaiting futex waits
  rcases Machine.waits_of_step attentive.own reached moved inside waits with ⟨same, old⟩ |
      ⟨_, _, before, _, _, _, _, _, _, _, isBegin, _⟩
  · exact attentive.waits task call (same.trans isLast) (Machine.inside_of_callOf same inside)
      notWaiting futex old
  · obtain rfl : call = { before with waiting := true } :=
      Option.some_inj.mp (isLast.symm.trans isBegin)
    cases notWaiting

theorem Machine.Begins.owns {memory : Word → Word} {data : Data}
    (begins : machine.Begins cells memory data) : machine.Owns := by
  intro task index isCalling
  rw [begins.calling] at isCalling
  cases isCalling

omit [NeZero cores] in
theorem Machine.Begins.callOf {memory : Word → Word} {data : Data} [NeZero cores]
    (begins : machine.Begins cells memory data) (task : Word) : machine.callOf task = none := by
  rw [Machine.callOf, begins.calling]
  rfl

theorem Machine.Begins.attentive {memory : Word → Word} {data : Data}
    (begins : machine.Begins cells memory data) : machine.Attentive program := by
  refine ⟨begins.owns, ?_, ?_⟩
  · intro task call isLast
    rw [begins.callOf] at isLast
    cases isLast
  · intro call member
    rw [begins.calls] at member
    cases member

theorem attentive_of_guarded {memory : Word → Word} {data : Data}
    {condition : Shared Word Word Data Place → Move Result (Context × Entry) → Prop}
    (confined : Confined cells program)
    (reached : (machineSystem program cells memory data).Guarded
      (Machine.Meets program cells condition) machine) : machine.Attentive program := by
  induction reached with
  | start begins => exact Machine.Begins.attentive begins
  | step before _ moved ih =>
      exact ih.step (shared_of_machine confined before).1.reached moved

end PicoToolkit
