import PicoToolkit.Cmsis.MutexRelease

/-!
Who holds a mutex: the tasks that have acquired it and not yet released it as often.
-/

namespace PicoToolkit

open Ring Transition Interleaving Tag

section

variable {cores : Nat}

/-- How often each task has acquired the mutex without the matching release. -/
def heldAfter (_ : Machine cores Unit MutexPlace) (label : Label cores MutexEntry)
    (next : Machine cores Unit MutexPlace) (held : Word → Nat) : Word → Nat :=
  match label with
  | .act _ index =>
      match next.calls[index]? with
      | some ⟨.task task, place, _⟩ =>
          match place.phase with
          | .taken => Function.update held task (held task + 1)
          | .given => Function.update held task (held task - 1)
          | _ => held
      | _ => held
  | _ => held

def mutexHeld (cores : Nat) [NeZero cores] (contexts : Word → Word) (mutex : RtosMutex)
    (inherits : Bool) :
    System (Machine cores Unit MutexPlace × (Word → Nat)) (Label cores MutexEntry) :=
  (mutexSystem cores contexts mutex inherits).record (fun _ => 0) heldAfter

/-- At most one task holds the mutex, and the word names it. -/
def MutexExcludes (mutex : RtosMutex) (recorded : Machine cores Unit MutexPlace × (Word → Nat)) : Prop :=
  ∀ task, 0 < recorded.2 task →
    untag (recorded.1.kernel.mutexView mutex).value = task ∧
      ∀ other, 0 < recorded.2 other → other = task

variable [NeZero cores]

/-- The task that a step of the rest of the system ends. -/
def endedTask (machine : Machine cores Unit MutexPlace) : Label cores MutexEntry → Option Word
  | .kernel action =>
      match event machine.kernel action with
      | .exit task => some task
      | _ => none
  | _ => none

/-- The task that acquires the mutex since the word names it. -/
def reacquiring (machine : Machine cores Unit MutexPlace) : Label cores MutexEntry → Option Word
  | .act _ index =>
      match machine.calls[index]? with
      | some ⟨.task task, place, _⟩ =>
          match place.phase with
          | .taking _ .again => some task
          | _ => none
      | _ => none
  | _ => none

/-- No task ends while it holds the mutex. -/
def OwnersStay (recorded : Machine cores Unit MutexPlace × (Word → Nat)) (label : Label cores MutexEntry) :
    Prop :=
  ∀ task ∈ endedTask recorded.1 label, recorded.2 task = 0

/-- A task that passes the owner test of an acquire, but does not hold the mutex, finds the count at zero,
and the count does not overflow. -/
def CountsAgree (mutex : RtosMutex) (recorded : Machine cores Unit MutexPlace × (Word → Nat))
    (label : Label cores MutexEntry) : Prop :=
  ∀ task ∈ reacquiring recorded.1 label,
    (recorded.2 task = 0 → (recorded.1.kernel.mutexView mutex).count = 0) ∧
      (recorded.1.kernel.mutexView mutex).count ≠ 0x7fffffff

instance (recorded : Machine cores Unit MutexPlace × (Word → Nat)) (label : Label cores MutexEntry) :
    Decidable (OwnersStay recorded label) :=
  Option.decidableForallMem _

instance (mutex : RtosMutex) (recorded : Machine cores Unit MutexPlace × (Word → Nat))
    (label : Label cores MutexEntry) : Decidable (CountsAgree mutex recorded label) :=
  Option.decidableForallMem _

/-- The count has been decremented for a release that goes on. -/
def MutexPhase.counted : MutexPhase → Bool
  | .giving .load | .giving .exchange | .giving .wake => true
  | _ => false

/-- How often a task may hold the mutex while a call of it is in a phase. -/
def MutexPhase.Allows (lock : LockWords) (held : Nat) : MutexPhase → Prop
  | .taking waits .exchange => waits → held = 0
  | .taking _ (.wait _) | .taking _ .check => held = 0
  | .taking _ .again => lock.recursive
  | .taking _ .first => held = 0 ∧ lock.recursive
  | .giving .load | .giving .exchange | .giving .wake => held ≤ 1
  | _ => True

def MutexPhase.heldThen (held : Nat) : MutexPhase → Nat
  | .taken => held + 1
  | .given => held - 1
  | _ => held

/-- What holds of a task that holds the mutex some times, while its call is in a phase. -/
structure HoldsMutex (lock : LockWords) (view : MutexView) (task : Word) (phase : MutexPhase)
    (held : Nat) : Prop where
  named : 0 < held → task = untag view.value
  plain : lock.recursive = false → held ≤ 1
  counted : lock.recursive → 0 < held → phase.counted = false →
    view.count.toNat = held ∧ held < 2 ^ 31
  allowed : phase.Allows lock held

namespace HoldsMutex

variable {lock : LockWords} {view : MutexView} {task : Word} {phase next : MutexPhase} {held : Nat}

theorem goes (holds : HoldsMutex lock view task phase held)
    (stays : next.counted = false → phase.counted = false) (allowed : next.Allows lock held) :
    HoldsMutex lock view task next held :=
  ⟨holds.named, holds.plain, fun recursive some uncounted => holds.counted recursive some (stays uncounted),
    allowed⟩

theorem none (allowed : phase.Allows lock 0) : HoldsMutex lock view task phase 0 :=
  ⟨fun some => by omega, fun _ => by omega, fun _ some => by omega, allowed⟩

theorem once (named : task = untag view.value) (count : lock.recursive → view.count = 1) :
    HoldsMutex lock view task .taken 1 := by
  refine ⟨fun _ => named, fun _ => Nat.le_refl 1, fun recursive _ _ => ?_, trivial⟩
  rw [count recursive]
  exact ⟨rfl, by omega⟩

theorem gets {waits : Bool} (named : task = untag view.value) :
    HoldsMutex lock view task (lock.gets waits) ((lock.gets waits).heldThen 0) := by
  rw [LockWords.gets]
  split
  · rename_i recursive
    exact none ⟨rfl, recursive⟩
  · rename_i plain
    exact once named fun recursive => (plain recursive).elim

theorem again {waits : Bool} (own : task = untag view.value)
    (holds : HoldsMutex lock view task (.taking waits .again) held)
    (starts : held = 0 → view.count = 0) (limit : view.count ≠ 0x7fffffff) :
    HoldsMutex lock { view with count := view.count + 1 } task .taken (held + 1) := by
  have recursive : lock.recursive := holds.allowed
  have count : view.count.toNat = held ∧ held < 2 ^ 31 := by
    by_cases some : 0 < held
    · exact holds.counted recursive some rfl
    · rw [starts (by omega), Nat.eq_zero_of_not_pos some]
      exact ⟨rfl, by omega⟩
  refine ⟨fun _ => own, fun plain => ?_, fun _ _ _ => ?_, trivial⟩
  · rw [plain] at recursive
    cases recursive
  · change (view.count + 1).toNat = held + 1 ∧ held + 1 < 2 ^ 31
    bv_omega

theorem inner (own : task = untag view.value) (holds : HoldsMutex lock view task (.giving .count) held) :
    HoldsMutex lock { view with count := view.count - 1 } task .given (held - 1) := by
  refine ⟨fun _ => own, fun plain => ?_, fun recursive some _ => ?_, trivial⟩
  · exact Nat.le_trans (Nat.sub_le held 1) (holds.plain plain)
  · obtain ⟨count, bound⟩ := holds.counted recursive (by omega) rfl
    change (view.count - 1).toNat = held - 1 ∧ held - 1 < 2 ^ 31
    bv_omega

/-- If the count is at an end, the task does not hold the mutex a second time. -/
theorem outermost (own : task = untag view.value)
    (holds : HoldsMutex lock view task (.giving .count) held) (last : ¬0 < (view.count - 1).toInt) :
    HoldsMutex lock { view with count := view.count - 1 } task (.giving .load) held := by
  refine ⟨fun _ => own, holds.plain, fun _ _ counted => (nomatch counted), ?_⟩
  change held ≤ 1
  cases recursive : lock.recursive with
  | false => exact holds.plain recursive
  | true =>
      refine Nat.le_of_not_lt fun several => last ?_
      obtain ⟨count, bound⟩ := holds.counted recursive (by omega) rfl
      rw [BitVec.toInt_eq_toNat_of_lt]
      · bv_omega
      · bv_omega

/-- A release that gives the mutex away. -/
theorem gives {after : MutexView} {count : Nat} (most : count ≤ 1) :
    HoldsMutex lock after task .given (count - 1) := by
  have none : count - 1 = 0 := by omega
  rw [none]
  exact .none trivial

end HoldsMutex

namespace MutexMoves

variable {lock : LockWords} {self other : Word} {view after : MutexView} {before then_ : MutexPhase}
  {held : Nat}

theorem holds_self (moves : MutexMoves lock self view after before then_) (aligned : Untagged self)
    (nonzero : self ≠ 0) (own : before.names → self = untag view.value)
    (holds : HoldsMutex lock view self before held)
    (agree : ∀ waits, before = .taking waits .again →
      (held = 0 → view.count = 0) ∧ view.count ≠ 0x7fffffff) :
    HoldsMutex lock after self then_ (then_.heldThen held) := by
  have unheld : self ≠ untag view.value → held = 0 := fun other =>
    Nat.eq_zero_of_not_pos fun some => other (holds.named some)
  cases moves with
  | ends early =>
      refine holds.goes (fun _ => ?_) trivial
      cases before with
      | giving place =>
          cases place with
          | owned => rfl
          | _ => cases early
      | _ => rfl
  | @differs waits other =>
      refine holds.goes (fun _ => rfl) fun isWaiting => ?_
      exact unheld (other isWaiting)
  | mine recursive same => exact holds.goes (fun _ => rfl) recursive
  | again =>
      obtain ⟨starts, limit⟩ := agree _ rfl
      exact holds.again (own rfl) starts limit
  | takes free =>
      have nobody : held = 0 := unheld fun same => nonzero (by rw [same, free]; exact untagged_zero)
      subst nobody
      exact .gets aligned.symm
  | fails => exact holds.goes (fun _ => rfl) (holds.allowed rfl)
  | joins count joins =>
      have none : held = 0 := holds.allowed
      subst none
      exact .none rfl
  | returns => exact holds.goes (fun _ => rfl) holds.allowed
  | handed same =>
      have none : held = 0 := holds.allowed
      subst none
      exact .gets same
  | retries => exact holds.goes (fun _ => rfl) fun _ => holds.allowed
  | counts =>
      obtain ⟨none, _⟩ : held = 0 ∧ lock.recursive := holds.allowed
      subst none
      exact .once (own rfl) fun _ => rfl
  | named same =>
      split
      · exact holds.goes (fun _ => rfl) trivial
      · rename_i plain
        refine holds.goes (fun _ => rfl) (holds.plain (Bool.eq_false_of_not_eq_true plain))
  | inner deeper => exact holds.inner (own rfl)
  | outermost last => exact holds.outermost (own rfl) last
  | loads =>
      refine holds.goes (fun uncounted => ?_) ?_
      · split at uncounted
        · cases uncounted
        · cases uncounted
      · split
        · exact holds.allowed
        · exact holds.allowed
  | frees same => exact .gives holds.allowed
  | contended => exact holds.goes nofun holds.allowed
  | wakes => exact .gives holds.allowed

/-- Another task that holds the mutex goes on to do so, and the count stays as it is. -/
theorem count_other (moves : MutexMoves lock self view after before then_)
    (own : before.names → self = untag view.value) (differs : other ≠ self)
    (named : other = untag view.value) : after.count = view.count := by
  cases moves with
  | again => exact (differs (named.trans (own rfl).symm)).elim
  | counts => exact (differs (named.trans (own rfl).symm)).elim
  | inner => exact (differs (named.trans (own rfl).symm)).elim
  | outermost => exact (differs (named.trans (own rfl).symm)).elim
  | joins count => exact count
  | wakes count => exact count
  | _ => rfl

end MutexMoves

/-- The phase of the last call of a task. -/
def Machine.phaseOf (machine : Machine cores Unit MutexPlace) (task : Word) : MutexPhase :=
  (machine.callOf task).elim .ended fun call => call.place.phase

structure MutexHolds (mutex : RtosMutex) (inherits : Bool) (machine : Machine cores Unit MutexPlace)
    (held : Word → Nat) : Prop where
  sound : MutexSound mutex inherits machine
  listed : ∀ task, 0 < held task → task ∈ machine.kernel.view.tasks
  holds : ∀ task, HoldsMutex mutex.lock (machine.kernel.mutexView mutex) task (machine.phaseOf task)
    (held task)

variable {contexts : Word → Word} {mutex : RtosMutex} {inherits : Bool}
  {machine next : Machine cores Unit MutexPlace} {label : Label cores MutexEntry} {core : Fin cores}
  {index : Nat} {task : Word} {held : Word → Nat}

theorem tasks_wait {view : View} {futex value : Word} : (view.wait task futex value).tasks = view.tasks := by
  have boosted : ∀ (view : View) (owner : Word), (view.boost futex owner).tasks = view.tasks := by
    intro view owner
    simp only [View.boost]
    split
    · rfl
    · rfl
  simp only [View.wait]
  split
  · exact boosted _ _
  · rfl

theorem tasks_of_perform {view next : View} {event : Event} (done : view.perform event = some next)
    (stays : event ≠ .exit task) (listed : task ∈ view.tasks) : task ∈ next.tasks := by
  cases event with
  | create created priority =>
      obtain rfl := Option.some_inj.mp done
      exact mem_insertEntry.mpr (Or.inr listed)
  | exit exited =>
      obtain rfl := Option.some_inj.mp done
      have other : task ≠ exited := fun same => stays (same ▸ rfl)
      simpa [View.exit] using ⟨listed, other⟩
  | wait waiter futex expected =>
      obtain rfl := Option.some_inj.mp done
      rw [tasks_wait]
      exact listed
  | wake futex all =>
      obtain ⟨woken, wakes⟩ := View.exists_wakes done
      rw [wakes.tasks]
      exact listed
  | _ =>
      obtain rfl := Option.some_inj.mp done
      exact listed

theorem HoldsMutex.congr {lock : LockWords} {view after : MutexView} {phase : MutexPhase} {count : Nat}
    (holds : HoldsMutex lock view task phase count) (value : after.value = view.value)
    (same : after.count = view.count) : HoldsMutex lock after task phase count :=
  ⟨value ▸ holds.named, holds.plain, same ▸ holds.counted, holds.allowed⟩

theorem MutexPhase.allows_fresh {lock : LockWords} {phase : MutexPhase} (fresh : phase.fresh)
    (count : Nat) : phase.Allows lock count := by
  cases phase with
  | taking waits place =>
      cases place with
      | owned => trivial
      | _ => cases fresh
  | giving place =>
      cases place with
      | owned => trivial
      | _ => cases fresh
  | ended => trivial
  | _ => cases fresh

omit [NeZero cores] in
theorem Machine.phaseOf_some {call : Call cores MutexPlace} (last : machine.callOf task = some call) :
    machine.phaseOf task = call.place.phase := by
  rw [phaseOf, last]
  rfl

omit [NeZero cores] in
theorem Machine.phaseOf_none (idle : machine.callOf task = none) : machine.phaseOf task = .ended := by
  rw [phaseOf, idle]
  rfl

omit [NeZero cores] in
/-- A task that makes a call has returned from the one before. -/
theorem counted_of_idle (idle : machine.busy (mutexProgram contexts mutex) task = false) :
    (machine.phaseOf task).counted = false := by
  cases last : machine.callOf task with
  | none =>
      rw [Machine.phaseOf_none last]
      rfl
  | some call =>
      rw [Machine.phaseOf_some last]
      rw [Machine.busy, last] at idle
      obtain ⟨owner, place, waiting⟩ := call
      cases place with
      | unlock self place =>
          rcases place with place | ⟨status, errno⟩
          · cases idle
          · cases status <;> rfl
      | release self place =>
          rcases place with place | status
          · cases idle
          · cases status <;> rfl
      | lock self msec place =>
          rcases place with place | ⟨status, errno⟩
          · rfl
          · cases status <;> rfl
      | trylock self place =>
          rcases place with place | ⟨status, errno⟩
          · rfl
          · cases status <;> rfl
      | acquire self timeout place =>
          rcases place with place | status
          · rfl
          · cases status <;> rfl

namespace MutexHolds

theorem rests (holds : MutexHolds mutex inherits machine held)
    (stay : OwnersStay (machine, held) label) (uses : UsesMutex mutex machine label)
    (notAct : ∀ core index, label ≠ .act core index)
    (sound : MutexSound mutex inherits next)
    (moved : Machine.step (mutexProgram contexts mutex) mutex.cells machine label = some next) :
    MutexHolds mutex inherits next held := by
  have rests := mutexRests_of_step holds.sound uses notAct moved
  refine ⟨sound, fun task some => ?_, fun task => ?_⟩
  · cases label with
    | act core index => exact (notAct core index rfl).elim
    | interrupt core entry => exact uses.elim
    | call core entry =>
        obtain ⟨_, _, _, rfl⟩ := Machine.calls_of_call moved
        exact holds.listed task some
    | kernel action =>
        have stepped := (Machine.calling_of_kernel moved).2.1
        refine tasks_of_perform (view_transition holds.sound.reached stepped).2 ?_
          (holds.listed task some)
        intro exits
        have none : held task = 0 := stay task (by simp only [endedTask, exits, Option.mem_some])
        omega
  · have before := (holds.holds task).congr rests.value rests.count
    rcases Machine.callOf_of_step holds.sound.owns moved task with same | ⟨creator, descriptor, rfl⟩ |
        ⟨on, entry, rfl, isCurrent, idle⟩ | ⟨on, index, _, rfl, _⟩
    · rw [Machine.phaseOf, same]
      exact before
    · have enabled := (@view_transition cores _ machine.kernel next.kernel
        (.create creator task descriptor) holds.sound.reached (Machine.calling_of_kernel moved).2.1).1
      have none : held task = 0 :=
        Nat.eq_zero_of_not_pos fun some => enabled.1 (holds.listed task some)
      rw [none]
      refine .none ?_
      cases last : next.callOf task with
      | none =>
          rw [Machine.phaseOf_none last]
          trivial
      | some call =>
          rw [Machine.phaseOf_some last]
          rcases rests.calls task call last with old | ⟨fresh, _⟩
          · have allowed := (holds.holds task).allowed
            rw [Machine.phaseOf_some old, none] at allowed
            exact allowed
          · exact MutexPhase.allows_fresh fresh 0
    · refine before.goes (fun _ => counted_of_idle idle) ?_
      cases last : next.callOf task with
      | none =>
          rw [Machine.phaseOf_none last]
          trivial
      | some call =>
          rw [Machine.phaseOf_some last]
          rcases rests.calls task call last with old | ⟨fresh, _⟩
          · have allowed := (holds.holds task).allowed
            rw [Machine.phaseOf_some old] at allowed
            exact allowed
          · exact MutexPhase.allows_fresh fresh _
    · exact (notAct on index rfl).elim

end MutexHolds

/-- A call does not end a task. -/
theorem notExit_of_act {action : Action cores}
    (isAction : machine.action (mutexProgram contexts mutex) (.act core index) = some action) :
    event machine.kernel action ≠ .exit task := by
  intro exits
  have source := event_from machine.kernel action
  rw [exits] at source
  obtain ⟨call, _, isAction⟩ := Option.bind_eq_some_iff.mp isAction
  obtain ⟨op, _, isAction⟩ := Option.bind_eq_some_iff.mp isAction
  cases op with
  | word address act =>
      obtain rfl := Option.some_inj.mp isAction
      simp [Event.From] at source
  | data act => cases isAction
  | service request resume =>
      cases request with
      | state task => cases isAction
      | init futex value flags =>
          obtain rfl := Option.some_inj.mp isAction
          simp [Event.From] at source
      | wake futex all =>
          obtain rfl := Option.some_inj.mp isAction
          cases owner : call.owner with
          | task other => simp [owner, wakeAction, Event.From] at source
          | handler other => simp [owner, wakeAction, Event.From] at source
      | wait futex expected ticks =>
          obtain ⟨_, same⟩ := Option.ite_none_left_eq_some.mp isAction
          obtain rfl := Option.some_inj.mp same
          simp [Event.From] at source

omit [NeZero cores] in
theorem MutexActs.heldAfter {call after : Call cores MutexPlace}
    (acts : MutexActs mutex machine next core index task call after) :
    heldAfter machine (.act core index) next held =
      Function.update held task (after.place.phase.heldThen (held task)) := by
  have found := acts.found
  have owner := acts.owner
  obtain ⟨_, place, waiting⟩ := after
  obtain rfl := owner
  simp only [PicoToolkit.heldAfter, found]
  cases place.phase with
  | taken => rfl
  | given => rfl
  | taking => exact (Function.update_eq_self task held).symm
  | giving => exact (Function.update_eq_self task held).symm
  | ended => exact (Function.update_eq_self task held).symm

omit [NeZero cores] in
theorem CountsAgree.again {call : Call cores MutexPlace} {waits : Bool}
    (agree : CountsAgree mutex (machine, held) (.act core index))
    (found : machine.calls[index]? = some call) (owner : call.owner = .task task)
    (phase : call.place.phase = .taking waits .again) :
    (held task = 0 → (machine.kernel.mutexView mutex).count = 0) ∧
      (machine.kernel.mutexView mutex).count ≠ 0x7fffffff := by
  obtain ⟨_, place, waiting⟩ := call
  obtain rfl := owner
  exact agree task (by simp only [reacquiring, found, phase, Option.mem_some])

namespace MutexHolds

theorem listed_of_act (holds : MutexHolds mutex inherits machine held)
    (moved : Machine.step (mutexProgram contexts mutex) mutex.cells machine (.act core index) = some next)
    (listed : task ∈ machine.kernel.view.tasks) : task ∈ next.kernel.view.tasks := by
  have kernel := Machine.kernel_of_step moved
  cases isAction : machine.action (mutexProgram contexts mutex) (.act core index) with
  | none =>
      rw [isAction] at kernel
      exact (show next.kernel = _ from kernel) ▸ listed
  | some action =>
      rw [isAction] at kernel
      exact tasks_of_perform (view_transition holds.sound.reached kernel).2 (notExit_of_act isAction) listed

theorem acts {call after : Call cores MutexPlace} (holds : MutexHolds mutex inherits machine held)
    (agree : CountsAgree mutex (machine, held) (.act core index)) (sound : MutexSound mutex inherits next)
    (acts : MutexActs mutex machine next core index task call after)
    (moved : Machine.step (mutexProgram contexts mutex) mutex.cells machine (.act core index) = some next) :
    MutexHolds mutex inherits next (heldAfter machine (.act core index) next held) := by
  obtain ⟨nonzero, aligned, _⟩ := holds.sound.callers task call acts.last
  have own := holds.sound.named task call acts.last
  rw [acts.heldAfter]
  refine ⟨sound, fun other some => ?_, fun other => ?_⟩
  · refine holds.listed_of_act moved ?_
    by_cases same : other = task
    · subst same
      exact listed_of_current holds.sound.reached acts.runs
    · rw [Function.update_of_ne same] at some
      exact holds.listed other some
  · by_cases same : other = task
    · subst same
      rw [Function.update_self, Machine.phaseOf_some acts.becomes]
      have before := holds.holds other
      rw [Machine.phaseOf_some acts.last] at before
      exact acts.moves.holds_self aligned nonzero own before fun waits phase =>
        agree.again acts.acting acts.caller phase
    · rw [Function.update_of_ne same, Machine.phaseOf, acts.others other same]
      have before := holds.holds other
      refine ⟨fun some => ?_, before.plain, fun recursive some uncounted => ?_, before.allowed⟩
      · have listed := holds.listed other some
        have distinct := ((ordered_of_reachable holds.sound.reached).aligned other listed).1
        exact acts.moves.names_other aligned own distinct same (before.named some)
      · rw [acts.moves.count_other own same (before.named some)]
        exact before.counted recursive some uncounted

theorem step (own : OwnContexts contexts) (holds : MutexHolds mutex inherits machine held)
    (stay : OwnersStay (machine, held) label) (agree : CountsAgree mutex (machine, held) label)
    (uses : UsesMutex mutex machine label)
    (moved : Machine.step (mutexProgram contexts mutex) mutex.cells machine label = some next) :
    MutexHolds mutex inherits next (heldAfter machine label next held) := by
  have sound := (holds.sound.step own uses moved).1
  by_cases isAct : ∃ core index, label = .act core index
  · obtain ⟨core, index, rfl⟩ := isAct
    obtain ⟨task, call, after, acts⟩ := mutexActs_of_step own holds.sound moved
    exact holds.acts agree sound acts moved
  · have notAct : ∀ core index, label ≠ .act core index :=
      fun core index same => isAct ⟨core, index, same⟩
    have same : heldAfter machine label next held = held := by
      cases label with
      | act core index => exact (notAct core index rfl).elim
      | _ => rfl
    rw [same]
    exact holds.rests stay uses notAct sound moved

theorem excludes (holds : MutexHolds mutex inherits machine held) : MutexExcludes mutex (machine, held) := by
  intro task some
  have named := (holds.holds task).named some
  exact ⟨named.symm, fun other someOther => ((holds.holds other).named someOther).trans named.symm⟩

end MutexHolds

/-- In every run in which the count agrees, at most one task holds the mutex, and the word names it. -/
theorem mutexExcludes_of_guarded {recorded : Machine cores Unit MutexPlace × (Word → Nat)}
    (own : OwnContexts contexts)
    (reached : (mutexHeld cores contexts mutex inherits).Guarded
      (fun recorded label => OwnersStay recorded label ∧ CountsAgree mutex recorded label) recorded) :
    MutexExcludes mutex recorded := by
  suffices holds : MutexHolds mutex inherits recorded.1 recorded.2 from holds.excludes
  refine reached.invariant (motive := fun recorded => MutexHolds mutex inherits recorded.1 recorded.2) ?_ ?_
  · rintro ⟨machine, held⟩ ⟨begins, rfl⟩
    refine ⟨begins.sound, fun _ some => (Nat.lt_irrefl 0 some).elim, fun task => .none ?_⟩
    have idle : machine.callOf task = none := by
      rw [Machine.callOf, begins.calling]
      rfl
    rw [Machine.phaseOf_none idle]
    trivial
  · rintro ⟨machine, held⟩ label ⟨next, later⟩ holds ⟨stay, agree⟩ moved
    obtain ⟨after, stepped, same⟩ := Option.map_eq_some_iff.mp moved
    obtain ⟨rfl, rfl⟩ := Prod.mk.inj same
    obtain ⟨uses, stepped⟩ := Option.ite_none_right_eq_some.mp stepped
    exact holds.step own stay agree uses stepped

end

section Runs

def recursiveMutex : RtosMutex where
  lock := { value := 0x104, count := 0x10c, futex := 0x100, recursive := true }

def acquireForever : MutexCall := .osMutexAcquire schedulerWaitForever

/-- The task at 0x2000 acquires the mutex, and the one at 0x1000 waits for it. -/
def recursiveRun : List (Label 1 MutexEntry) :=
  List.flatten [[.call 0 ⟨0x2000, acquireForever⟩], List.replicate 3 (.act 0 0),
    (.yield 0 :: switchPass).map .kernel, [.call 0 ⟨0x1000, acquireForever⟩],
    List.replicate 3 (.act 0 1), switchPass.map .kernel]

/-- The task at 0x2000 acquires the mutex once more and releases it twice; the one at 0x1000 gets it. -/
def handOverRun : List (Label 1 MutexEntry) :=
  List.flatten [[.call 0 ⟨0x2000, acquireForever⟩], List.replicate 2 (.act 0 2),
    [.call 0 ⟨0x2000, .osMutexRelease⟩], List.replicate 2 (.act 0 3),
    [.call 0 ⟨0x2000, .osMutexRelease⟩], List.replicate 4 (.act 0 4),
    (.yield 0 :: switchPass).map .kernel, List.replicate 3 (.act 0 1)]

/-- The waiter is resumed before the release, which leaves the mutex to the task at 0x2000.  A second release,
after a second wait that is resumed, takes the count below zero, so that the first release after two more
acquires frees the mutex. -/
def staleRun : List (Label 1 MutexEntry) :=
  List.flatten [[.kernel (.resume 0 0x1000), .call 0 ⟨0x2000, .osMutexRelease⟩],
    List.replicate 4 (.act 0 2), (.yield 0 :: switchPass).map .kernel,
    [.act 0 1, .call 0 ⟨0x1000, acquireForever⟩], List.replicate 3 (.act 0 3), switchPass.map .kernel,
    [.kernel (.resume 0 0x1000), .call 0 ⟨0x2000, .osMutexRelease⟩], List.replicate 4 (.act 0 4),
    [.call 0 ⟨0x2000, acquireForever⟩], List.replicate 2 (.act 0 5),
    [.call 0 ⟨0x2000, acquireForever⟩], List.replicate 2 (.act 0 6),
    [.call 0 ⟨0x2000, .osMutexRelease⟩], List.replicate 4 (.act 0 7),
    (.yield 0 :: switchPass).map .kernel,
    [.act 0 3, .call 0 ⟨0x1000, acquireForever⟩], List.replicate 3 (.act 0 8)]

theorem mutexExcludes_of_guarded_handOver : ∃ recorded : Machine 1 Unit MutexPlace × (Word → Nat),
    (mutexHeld 1 id recursiveMutex true).Guarded (fun recorded label =>
      OwnersStay recorded label ∧ CountsAgree recursiveMutex recorded label) recorded ∧
    recorded.2 0x1000 = 1 ∧ MutexExcludes recursiveMutex recorded := by
  obtain ⟨recorded, reached, held⟩ := exists_mutexRun (mutexHeld 1 id recursiveMutex true)
    (fun state => (⟨state, (), [], fun _ => none⟩, fun _ => 0)) recursiveMutex true
    (fun _ begins => ⟨begins, rfl⟩) (fun recorded label =>
      OwnersStay recorded label ∧ CountsAgree recursiveMutex recorded label) mutexSetup
    (recursiveRun ++ handOverRun) (fun recorded => recorded.2 0x1000 = 1) (by decide) (by decide)
  exact ⟨recorded, reached, held, mutexExcludes_of_guarded ownContexts_id reached⟩

/-- Two tasks hold a mutex at once. -/
theorem not_mutexExcludes :
    ¬∀ recorded : Machine 1 Unit MutexPlace × (Word → Nat),
      (mutexHeld 1 id recursiveMutex true).Guarded OwnersStay recorded →
      MutexExcludes recursiveMutex recorded := by
  intro excludes
  obtain ⟨recorded, reached, first, second⟩ := exists_mutexRun (mutexHeld 1 id recursiveMutex true)
    (fun state => (⟨state, (), [], fun _ => none⟩, fun _ => 0)) recursiveMutex true
    (fun _ begins => ⟨begins, rfl⟩) OwnersStay mutexSetup (recursiveRun ++ staleRun)
    (fun recorded => 0 < recorded.2 0x2000 ∧ 0 < recorded.2 0x1000) (by decide) (by decide +kernel)
  have same := (excludes recorded reached 0x2000 first).2 0x1000 second
  exact absurd same (by decide)

end Runs

end PicoToolkit
