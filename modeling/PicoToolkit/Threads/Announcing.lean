import PicoToolkit.Threads.Waking

/-!
Calls that wait until a word satisfies a wish of theirs, and calls that announce their changes of the
word by a wake for all who wait: no wish comes true behind the back of a waiter.
-/

namespace PicoToolkit

open Ring Transition Interleaving

variable {cores : Nat} [NeZero cores] {Data Place Entry : Type} {cells : Word → Bool}
  {program : ThreadProgram Data Place Entry} {machine next : Machine cores Data Place}

/-- A wait begins only on a value that is not the wished one; a call that makes a wish come true goes on
to announce it; an announcement is a wake for all, and is missed if a handler is refused. -/
structure Announcing (program : ThreadProgram Data Place Entry) (futex word : Word)
    (wish : Place → Word → Bool) (announces missed : Place → Bool) : Prop where
  waits : ∀ place expected ticks resume,
    program.op place = some (.service (.wait futex expected ticks) resume) →
      wish place expected = false
  writes : ∀ place act, program.op place = some (.word word act) → ∀ value,
    announces (act value).2 ∨ ∀ other, wish other (act value).1 → wish other value
  wakes : ∀ place, announces place → ∃ resume,
    program.op place = some (.service (.wake futex true) resume) ∧
      ∀ status, status.negative → missed (resume status)
  ends : ∀ place, missed place → program.op place = none
  inits : ∀ place value flags resume,
    program.op place ≠ some (.service (.init futex value flags) resume)

def SparesFutex (futex : Word) (machine : Machine cores Data Place) : Label cores Entry → Prop
  | .kernel action =>
      match event machine.kernel action with
      | .wait _ other _ | .initFutex other _ _ => other ≠ futex
      | _ => True
  | _ => True

instance (futex : Word) (machine : Machine cores Data Place) (label : Label cores Entry) :
    Decidable (SparesFutex futex machine label) := by
  unfold SparesFutex
  split
  · split
    · infer_instance
    · infer_instance
    · infer_instance
  · infer_instance

/-- Some call is about to wake all waiters, a request to do so is in a slot, or it was refused. -/
def Heard (futex : Word) (announces missed : Place → Bool) (machine : Machine cores Data Place) :
    Prop :=
  (∃ call ∈ machine.calls, announces call.place) ∨ machine.kernel.AskedFor futex true ∨
    ∃ call ∈ machine.calls, (∃ core, call.owner = .handler core) ∧ missed call.place

structure Announced (program : ThreadProgram Data Place Entry) (cells : Word → Bool)
    (futex word : Word) (wish : Place → Word → Bool) (announces missed : Place → Bool)
    (machine : Machine cores Data Place) : Prop where
  sound : machine.Sound cells
  owns : machine.Owns
  guards : (machine.kernel.futex futex).value = word
  waiters : ∀ task, machine.kernel.view.Waits task futex → ∃ call expected ticks resume,
    machine.callOf task = some call ∧ call.waiting ∧
      program.op call.place = some (.service (.wait futex expected ticks) resume) ∧
      (wish call.place (machine.kernel.memory word) → Heard futex announces missed machine)

section Steps

variable {futex word : Word} {wish : Place → Word → Bool} {announces missed : Place → Bool}
  {label : Label cores Entry} {task : Word}

theorem Machine.word_of_step (confined : Confined cells program) (sound : machine.Sound cells)
    (isCell : cells word) (moved : Machine.step program cells machine label = some next) :
    next.kernel.memory word = machine.kernel.memory word ∨
      ∃ core index call act, label = .act core index ∧ machine.calls[index]? = some call ∧
        program.op call.place = some (.word word act) ∧
        next.kernel.memory word = (act (machine.kernel.memory word)).1 ∧
        ∃ moving ∈ next.calls, moving.place = (act (machine.kernel.memory word)).2 := by
  have follows := (Machine.step_shared confined sound moved).2
  have same : next.shared cells = machine.shared cells →
      next.kernel.memory word = machine.kernel.memory word := by
    intro same
    rw [← Machine.memory_shared isCell, same, Machine.memory_shared isCell]
  cases label with
  | kernel action => exact Or.inl (same follows)
  | call core entry =>
      obtain ⟨_, _, _, rfl⟩ := Machine.calls_of_call moved
      exact Or.inl rfl
  | interrupt core entry =>
      obtain rfl := Option.some_inj.mp moved
      exact Or.inl rfl
  | act core index =>
      obtain ⟨call, _, found, _⟩ := Machine.calls_of_act moved
      have acted := (Machine.act_found moved found).2
      cases isNext : program.op call.place with
      | none =>
          simp only [Machine.act, isNext] at acted
          cases acted
      | some op =>
          cases op with
          | word address act =>
              by_cases own : address = word
              · subst own
                obtain ⟨value, moves⟩ := Machine.word_of_act found isNext acted
                exact Or.inr ⟨core, index, call, act, rfl, found, isNext, value, moves⟩
              · rw [Machine.act_word isNext acted]
                exact Or.inl (Function.update_of_ne (Ne.symm own) _ _)
          | data act =>
              simp only [Machine.act, isNext] at acted
              obtain rfl := Option.some_inj.mp acted
              exact Or.inl rfl
          | service request resume =>
              have kernel := Machine.kernel_of_step moved
              cases isAction : machine.action program (.act core index) with
              | none =>
                  rw [isAction] at kernel
                  exact Or.inl (congrArg (fun kernel => kernel.memory word) kernel)
              | some action =>
                  rw [isAction] at kernel
                  refine Or.inl (memory_of_step sound.reached kernel sound.untracked isCell ?_)
                  rintro value rfl
                  exact Machine.action_of_service found isNext isAction

omit [NeZero cores] in
theorem Machine.mem_calls_of_step [NeZero cores]
    (moved : Machine.step program cells machine label = some next) {call : Call cores Place}
    (member : call ∈ machine.calls) :
    call ∈ next.calls ∨ ∃ core index, label = .act core index ∧ machine.calls[index]? = some call := by
  cases label with
  | kernel action =>
      obtain ⟨_, _, calls, _⟩ := Machine.calling_of_kernel moved
      exact Or.inl (calls ▸ member)
  | call core entry =>
      obtain ⟨caller, _, _, rfl⟩ := Machine.calls_of_call moved
      exact Or.inl (List.mem_append_left _ member)
  | interrupt core entry =>
      obtain rfl := Option.some_inj.mp moved
      exact Or.inl (List.mem_append_left _ member)
  | act core index =>
      obtain ⟨acting, moving, found, _, calls, _⟩ := Machine.calls_of_act moved
      obtain ⟨position, isThere⟩ := List.mem_iff_getElem?.mp member
      by_cases same : index = position
      · subst same
        exact Or.inr ⟨core, index, rfl, isThere⟩
      · refine Or.inl ?_
        rw [calls]
        exact List.mem_of_getElem? ((List.getElem?_set_ne same).trans isThere)

omit [NeZero cores] in
theorem Machine.wait_of_action {core actor : Fin cores} {index : Nat} {expected ticks : Word}
    (isAction : machine.action program (.act actor index) =
      some (.futexWait core futex expected ticks)) :
    actor = core ∧ ∃ call resume, machine.calls[index]? = some call ∧ call.waiting = false ∧
      program.op call.place = some (.service (.wait futex expected ticks) resume) := by
  obtain ⟨call, found, isAction⟩ := Option.bind_eq_some_iff.mp isAction
  obtain ⟨op, isNext, isAction⟩ := Option.bind_eq_some_iff.mp isAction
  cases op with
  | word address act => cases isAction
  | data act => cases isAction
  | service request resume =>
      cases request with
      | init => cases isAction
      | state => cases isAction
      | wake woken all =>
          cases owner : call.owner with
          | _ =>
              simp only [owner, wakeAction] at isAction
              cases isAction
      | wait other value timeout =>
          cases begun : call.waiting with
          | true =>
              simp only [begun, if_true] at isAction
              cases isAction
          | false =>
              simp only [begun, Bool.false_eq_true, if_false] at isAction
              cases isAction
              exact ⟨rfl, call, resume, found, begun, isNext⟩

omit [NeZero cores] in
theorem Machine.init_of_action {core : Fin cores} {index : Nat} {value flags : Word}
    (isAction : machine.action program (.act core index) = some (.futexInit futex value flags)) :
    ∃ call resume, program.op (call : Call cores Place).place =
      some (.service (.init futex value flags) resume) := by
  obtain ⟨call, _, isAction⟩ := Option.bind_eq_some_iff.mp isAction
  obtain ⟨op, isNext, isAction⟩ := Option.bind_eq_some_iff.mp isAction
  refine ⟨call, ?_⟩
  cases op with
  | word address act => cases isAction
  | data act => cases isAction
  | service request resume =>
      cases request with
      | state => cases isAction
      | init other guarded set =>
          cases isAction
          exact ⟨resume, isNext⟩
      | wake woken all =>
          cases owner : call.owner with
          | _ =>
              simp only [owner, wakeAction] at isAction
              cases isAction
      | wait other value timeout =>
          simp only at isAction
          split at isAction
          · cases isAction
          · cases isAction

omit [NeZero cores] in
theorem negative_of_status {core : Fin cores} {all : Bool} {kernel : State Links cores}
    (fails : futexWakeStatus core futex all kernel ≠ .value 0) :
    (futexWakeStatus core futex all kernel).negative := by
  simp only [futexWakeStatus] at fails ⊢
  split
  · rfl
  · rename_i plain
    simp only [if_neg plain] at fails
    split
    · rename_i accepted
      exact (fails (if_pos accepted)).elim
    · rfl

theorem Heard.step (announcing : Announcing program futex word wish announces missed)
    (sound : machine.Sound cells)
    (untracked : (machine.kernel.futex futex).flags = 0)
    (heard : Heard futex announces missed machine)
    (moved : Machine.step program cells machine label = some next) :
    Heard futex announces missed next ∨ ∀ task, ¬next.kernel.view.Waits task futex := by
  have kernel := Machine.kernel_of_step moved
  have plain : ¬flagSet (machine.kernel.futex futex).flags schedulerFutexOwnerTracking := by
    rw [untracked]
    decide
  rcases heard with ⟨call, member, isAnnouncing⟩ | asked | ⟨call, member, owner, isMissed⟩
  · rcases Machine.mem_calls_of_step moved member with stays | ⟨core, index, rfl, found⟩
    · exact Or.inl (Or.inl ⟨call, stays, isAnnouncing⟩)
    · obtain ⟨resume, isNext, misses⟩ := announcing.wakes call.place isAnnouncing
      have acted := (Machine.act_found moved found).2
      obtain ⟨after, stepped, rfl⟩ := Machine.act_wake isNext acted
      cases owner : call.owner with
      | task caller =>
          rw [owner] at stepped
          refine Or.inr fun task => notWaits_of_wakeAll sound.reached stepped rfl plain
      | handler other =>
          rw [owner] at stepped
          by_cases accepted : futexWakeStatus core futex true machine.kernel = .value 0
          · exact Or.inl (Or.inr (Or.inl
              (askedFor_of_interruptWake sound.reached accepted stepped)))
          · refine Or.inl (Or.inr (Or.inr ⟨_, List.mem_set (List.getElem?_eq_some_iff.mp found).1 _,
              ⟨other, owner⟩, ?_⟩))
            apply misses
            simp only [Machine.answer, wakeStatus]
            exact negative_of_status accepted
  · cases isAction : machine.action program label with
    | none =>
        rw [isAction] at kernel
        exact Or.inl (Or.inr (Or.inl (kernel ▸ asked)))
    | some action =>
        rw [isAction] at kernel
        rcases askedFor_of_step sound.reached kernel asked with still | wakes
        · exact Or.inl (Or.inr (Or.inl still))
        · exact Or.inr fun task => notWaits_of_wakeAll sound.reached kernel wakes plain
  · rcases Machine.mem_calls_of_step moved member with stays | ⟨core, index, rfl, found⟩
    · exact Or.inl (Or.inr (Or.inr ⟨call, stays, owner, isMissed⟩))
    · have acted := (Machine.act_found moved found).2
      simp only [Machine.act, announcing.ends call.place isMissed] at acted
      cases acted

theorem Announced.matched (announced : Announced program cells futex word wish announces missed machine)
    (isCell : cells word) {expected : Word}
    (matched : machine.kernel.futexValue futex = expected ∨
      machine.kernel.futexValue futex = waitValue (machine.kernel.futex futex) expected) :
    machine.kernel.memory word = expected := by
  have guarded : cells (machine.kernel.futex futex).value := announced.guards.symm ▸ isCell
  have flags := announced.sound.untracked _ guarded
  have plain : waitValue (machine.kernel.futex futex) expected = expected := by
    simp [waitValue, flagSet, flags]
  rw [plain, or_self, State.futexValue, announced.guards] at matched
  exact matched

/-- A thread that waits after a step has waited at the same place, or begins to wait for a wish that is
not true. -/
theorem Announced.waits_step (announcing : Announcing program futex word wish announces missed)
    (announced : Announced program cells futex word wish announces missed machine)
    (isCell : cells word) (spares : SparesFutex futex machine label)
    (moved : Machine.step program cells machine label = some next)
    (waits : next.kernel.view.Waits task futex) :
    ∃ call expected ticks resume, next.callOf task = some call ∧ call.waiting ∧
      program.op call.place = some (.service (.wait futex expected ticks) resume) ∧
      (wish call.place (machine.kernel.memory word) → Heard futex announces missed machine) := by
  have reached := announced.sound.reached
  have kernel := Machine.kernel_of_step moved
  have stays : machine.kernel.view.Waits task futex →
      ∃ call expected ticks resume, next.callOf task = some call ∧ call.waiting ∧
        program.op call.place = some (.service (.wait futex expected ticks) resume) ∧
        (wish call.place (machine.kernel.memory word) → Heard futex announces missed machine) := by
    intro old
    rw [Machine.callOf_of_waits announced.owns reached moved old]
    exact announced.waiters task old
  cases isAction : machine.action program label with
  | none =>
      rw [isAction] at kernel
      rw [kernel] at waits
      exact stays waits
  | some action =>
      rw [isAction] at kernel
      rcases waits_of_step reached kernel waits with old | ⟨core, expected, ticks, rfl, runs, matched⟩
      · exact stays old
      · have found := announced.matched isCell matched
        cases label with
        | kernel other =>
            obtain rfl := Option.some_inj.mp isAction
            have current : schedGetCurrent core machine.kernel = some task := runs
            simp only [SparesFutex, event, current, if_pos matched] at spares
            exact (spares rfl).elim
        | call core entry => cases isAction
        | interrupt core entry => cases isAction
        | act actor index =>
            obtain ⟨rfl, call, resume, isCall, begins, isNext⟩ := Machine.wait_of_action isAction
            obtain ⟨acting, acted⟩ := Machine.act_found moved isCall
            obtain ⟨caller, owner, happens⟩ := Machine.act_wait isNext acted
            obtain ⟨isCurrent, callerCalls⟩ := Machine.current_of_runs acting owner
            obtain rfl : caller = task := Option.some_inj.mp (isCurrent.symm.trans runs)
            rcases happens with ⟨begun, _⟩ | ⟨_, after, stepped, rfl⟩
            · rw [begins] at begun
              cases begun
            · have bound : index < machine.calls.length :=
                (List.getElem?_eq_some_iff.mp isCall).1
              refine ⟨{ call with waiting := true }, expected, ticks, resume, ?_, rfl, isNext, ?_⟩
              · simp [Machine.callOf, callerCalls, bound]
              · intro holds
                rw [found, announcing.waits _ _ _ _ isNext] at holds
                cases holds

theorem Announced.step (announcing : Announcing program futex word wish announces missed)
    (confined : Confined cells program) (isCell : cells word)
    (announced : Announced program cells futex word wish announces missed machine)
    (spares : SparesFutex futex machine label)
    (moved : Machine.step program cells machine label = some next) :
    Announced program cells futex word wish announces missed next := by
  have reached := announced.sound.reached
  have kernel := Machine.kernel_of_step moved
  have guarded : cells (machine.kernel.futex futex).value := announced.guards.symm ▸ isCell
  have flags := announced.sound.untracked _ guarded
  refine ⟨(Machine.step_shared confined announced.sound moved).1, announced.owns.step moved, ?_, ?_⟩
  · cases isAction : machine.action program label with
    | none =>
        rw [isAction] at kernel
        exact kernel ▸ announced.guards
    | some action =>
        rw [isAction] at kernel
        refine (congrArg Futex.value (View.futex_of_perform (view_transition reached kernel).2 ?_)).trans
          announced.guards
        intro value set inits
        cases label with
        | kernel other =>
            obtain rfl := Option.some_inj.mp isAction
            simp only [SparesFutex, inits] at spares
            exact spares rfl
        | call core entry => cases isAction
        | interrupt core entry => cases isAction
        | act core index =>
            have source := event_from machine.kernel action
            rw [inits] at source
            obtain rfl : action = .futexInit futex value set := source
            obtain ⟨call, resume, isNext⟩ := Machine.init_of_action isAction
            exact announcing.inits _ _ _ _ isNext
  · intro task waits
    obtain ⟨call, expected, ticks, resume, isLast, waiting, isNext, hears⟩ :=
      announced.waits_step announcing isCell spares moved waits
    refine ⟨call, expected, ticks, resume, isLast, waiting, isNext, fun holds => ?_⟩
    have stays : Heard futex announces missed machine → Heard futex announces missed next := by
      intro heard
      rcases heard.step announcing announced.sound flags moved with still | nobody
      · exact still
      · exact (nobody task waits).elim
    rcases Machine.word_of_step confined announced.sound isCell moved with same |
        ⟨core, index, writer, act, rfl, _, writes, value, moving, member, goesTo⟩
    · rw [same] at holds
      exact stays (hears holds)
    · rcases announcing.writes writer.place act writes (machine.kernel.memory word) with tells | clears
      · exact Or.inl ⟨moving, member, goesTo ▸ tells⟩
      · rw [value] at holds
        exact stays (hears (clears call.place holds))

end Steps

structure Resting (program : ThreadProgram Data Place Entry) (futex : Word)
    (machine : Machine cores Data Place) : Prop where
  blocked : ∀ call ∈ machine.calls, (program.op call.place).isSome →
    ∃ task, machine.callOf task = some call ∧ task ∈ machine.kernel.queue (.waiters futex)
  noWake : ¬machine.kernel.Asked futex

omit [NeZero cores] in
theorem Resting.of_one {futex task : Word} {index : Nat}
    (only : machine.calls.zipIdx.all fun entry =>
      !(program.op entry.1.place).isSome || decide (entry.2 = index))
    (isCalling : machine.calling task = some index)
    (queue : machine.kernel.queue (.waiters futex) = [task])
    (noWake : ¬machine.kernel.Asked futex) : Resting program futex machine := by
  refine ⟨fun call member unfinished => ⟨task, ?_, by rw [queue]; exact List.mem_singleton_self _⟩,
    noWake⟩
  obtain ⟨position, found⟩ := List.mem_iff_getElem?.mp member
  have isLast := List.all_eq_true.mp only (call, position) (List.mem_zipIdx_iff_getElem?.mpr found)
  simp only [unfinished, Bool.not_true, Bool.false_or, decide_eq_true_eq] at isLast
  exact Machine.callOf_eq.mpr ⟨index, isCalling, isLast ▸ found⟩

theorem Announced.of_resting {futex word : Word} {wish : Place → Word → Bool}
    {announces missed : Place → Bool}
    (announcing : Announcing program futex word wish announces missed)
    (announced : Announced program cells futex word wish announces missed machine)
    (resting : Resting program futex machine)
    (noHandler : ∀ call ∈ machine.calls, ∃ task, call.owner = .task task) {call : Call cores Place}
    (member : call ∈ machine.calls) (unfinished : (program.op call.place).isSome) :
    ∃ expected ticks resume,
      program.op call.place = some (.service (.wait futex expected ticks) resume) ∧
      wish call.place (machine.kernel.memory word) = false := by
  have atWait : ∀ call ∈ machine.calls, (program.op call.place).isSome →
      ∃ expected ticks resume,
        program.op call.place = some (.service (.wait futex expected ticks) resume) ∧
        (wish call.place (machine.kernel.memory word) → Heard futex announces missed machine) := by
    intro call member unfinished
    obtain ⟨task, isLast, waits⟩ := resting.blocked call member unfinished
    obtain ⟨other, expected, ticks, resume, isOther, _, isNext, hears⟩ := announced.waiters task waits
    obtain rfl := Option.some_inj.mp (isLast.symm.trans isOther)
    exact ⟨expected, ticks, resume, isNext, hears⟩
  obtain ⟨expected, ticks, resume, isNext, hears⟩ := atWait call member unfinished
  refine ⟨expected, ticks, resume, isNext, Bool.eq_false_of_not_eq_true fun holds => ?_⟩
  rcases hears holds with ⟨other, isThere, tells⟩ | asked | ⟨other, isThere, ⟨core, owner⟩, _⟩
  · obtain ⟨_, wakes, _⟩ := announcing.wakes other.place tells
    obtain ⟨_, _, _, waits, _⟩ := atWait other isThere (by rw [wakes]; rfl)
    rw [wakes] at waits
    cases waits
  · exact resting.noWake asked.asked
  · obtain ⟨task, isTask⟩ := noHandler other isThere
    rw [owner] at isTask
    cases isTask

def aloneSystem (program : ThreadProgram Data Place Entry) (cells : Word → Bool)
    (memory : Word → Word) (data : Data) (futex word : Word) :
    System (Machine cores Data Place) (Label cores Entry) where
  initial machine := machine.Begins cells memory data ∧
    (machine.kernel.futex futex).value = word ∧ machine.kernel.queue (.waiters futex) = []
  step machine label :=
    if SparesFutex futex machine label then Machine.step program cells machine label else none

section Alone

variable {memory : Word → Word} {data : Data} {futex word : Word} {wish : Place → Word → Bool}
  {announces missed : Place → Bool} {guard : Machine cores Data Place → Label cores Entry → Prop}

theorem machine_of_alone
    (reached : (aloneSystem program cells memory data futex word).Guarded guard machine) :
    (machineSystem program cells memory data).Guarded guard machine := by
  induction reached with
  | start begins => exact .start begins.1
  | step _ allowed moved ih => exact .step ih allowed (Option.ite_none_right_eq_some.mp moved).2

theorem announced_of_alone (announcing : Announcing program futex word wish announces missed)
    (confined : Confined cells program) (isCell : cells word)
    (reached : (aloneSystem program cells memory data futex word).Guarded guard machine) :
    Announced program cells futex word wish announces missed machine := by
  induction reached with
  | @start machine initially =>
      obtain ⟨begins, guards, nobody⟩ := initially
      refine ⟨⟨begins.kernel, begins.untracked⟩, begins.owns, guards, fun task waits => ?_⟩
      exact (List.eq_nil_iff_forall_not_mem.mp nobody task waits).elim
  | step _ _ moved ih =>
      obtain ⟨spares, moved⟩ := Option.ite_none_right_eq_some.mp moved
      exact ih.step announcing confined isCell spares moved

end Alone

theorem exists_alone (program : ThreadProgram Data Place Entry)
    (guard : Machine 1 Data Place → Label 1 Entry → Prop)
    [∀ machine label, Decidable (guard machine label)] (words : List Word) (memory : Word → Word)
    (data : Data) (futex word : Word) (setup : List (Action 1)) (labels : List (Label 1 Entry))
    (check : Machine 1 Data Place → Prop) [DecidablePred check]
    (found : ((scheduler 1).run (fun _ action => action.plain words = true) (bootState 1) setup).any
      fun state => (words.all fun address => decide (state.memory address = memory address)) &&
        decide ((state.futex futex).value = word ∧ state.queue (.waiters futex) = []) &&
        ((aloneSystem program (fun address => decide (address ∈ words)) memory data futex word).run
          guard ⟨state, data, [], fun _ => none⟩ labels).any fun final => decide (check final)) :
    ∃ machine, (aloneSystem program (fun address => decide (address ∈ words)) memory data futex
      word).Guarded guard machine ∧ check machine := by
  obtain ⟨state, prepared, found⟩ := (Option.any_eq_true _ _).mp found
  obtain ⟨ready, found⟩ := (Bool.and_eq_true _ _).mp found
  obtain ⟨initially, isSetUp⟩ := (Bool.and_eq_true _ _).mp ready
  obtain ⟨final, performed, checked⟩ := (Option.any_eq_true _ _).mp found
  have begins := @begins_of_setup Data Place _ _ _ _ prepared initially data
  exact ⟨final, System.run_guarded (.start ⟨begins, of_decide_eq_true isSetUp⟩) performed,
    of_decide_eq_true checked⟩

end PicoToolkit
