import PicoToolkit.Atomic.Locks

/-!
The atomic functions are linearisable: a call takes effect with its last access to the variable.
-/

namespace PicoToolkit.Atomic

open Transition Linearization Memory

inductive Follows {Value : Type} (body : Body Value) : Body Value → Prop
  | refl : Follows body body
  | load {next value} : Follows body (.load next) → Follows body (next value)

section

variable {Call : Type} {routine : Call → Routine}

def atomically (routine : Call → Routine) (memory : Bytes) (call : Call) : Returned × Bytes :=
  let result := (routine call).body.run (Cores.value memory call)
  (⟨_, result.1⟩, write memory (routine call).mem.toNat (routine call).width.bytes result.2)

abbrev History (Call : Type) : Type := List (Event Call Returned)

abbrev Order (Call : Type) : Type := List (Entry Call Returned)

structure Pending (history : History Call) (order : Order Call) (index : Nat) (call : Call) :
    Prop where
  invoked : Event.invoke index call ∈ history
  fresh : index ∉ order.map Entry.id

structure UpToDate (memory : Bytes) (call : Call)
    (body : Body (BitVec (routine call).width.bits)) : Prop where
  follows : Follows (routine call).body body
  run : body.run (Cores.value memory call) = (routine call).body.run (Cores.value memory call)
  active : ∀ outcome, body ≠ .done outcome

def Agrees (memory : Bytes) (history : History Call) (order : Order Call) (index : Nat)
    (running : Running routine) : Prop :=
  match running.place with
  | .enter | .set | .check | .back => Pending history order index running.call
  | .inside body =>
      Pending history order index running.call ∧ UpToDate memory running.call body
  | .unlock outcome | .leave outcome =>
      ∃ entry ∈ order, entry.id = index ∧ entry.result = ⟨_, outcome⟩
  | .over => True

structure Traced (start : Bytes) (state : Cores routine) (order : Order Call) : Prop where
  linearizes : Linearizes (atomically routine) start state.history order state.memory
  bounded : ∀ entry ∈ order, entry.id < state.running.length
  agrees : ∀ (index : Nat) (running : Running routine), state.running[index]? = some running →
    Agrees state.memory state.history order index running

def Undisturbed (state next : Cores routine) (index : Nat) : Prop :=
  ∀ (other : Nat) (second : Running routine) (body : Body (BitVec (routine second.call).width.bits)),
    state.running[other]? = some second → other ≠ index → second.place = .inside body →
      UpToDate state.memory second.call body → UpToDate next.memory second.call body

variable {start : Bytes} {state next : Cores routine} {order : Order Call} {index : Nat}
  {running : Running routine}

theorem Undisturbed.of_eq (same : next.memory = state.memory) : Undisturbed state next index := by
  intro other second body _ _ _ upToDate
  rw [same]
  exact upToDate

theorem Agrees.other {memory after : Bytes} {history later : History Call} {more : Order Call}
    (agrees : Agrees memory history order index running)
    (events : ∀ event ∈ history, event ∈ later) (entries : ∀ entry ∈ order, entry ∈ more)
    (others : ∀ entry ∈ more, entry ∈ order ∨ entry.id ≠ index)
    (good : ∀ body, running.place = .inside body → UpToDate memory running.call body →
      UpToDate after running.call body) : Agrees after later more index running := by
  have pending : Pending history order index running.call →
      Pending later more index running.call := by
    rintro ⟨invoked, fresh⟩
    refine ⟨events _ invoked, fun member => ?_⟩
    obtain ⟨entry, inside, own⟩ := List.mem_map.mp member
    rcases others entry inside with old | new
    · exact fresh (List.mem_map.mpr ⟨entry, old, own⟩)
    · exact new own
  unfold Agrees at agrees ⊢
  split at agrees
  case h_5 body place => exact ⟨pending agrees.1, good body place agrees.2⟩
  case h_6 | h_7 =>
    obtain ⟨entry, member, own⟩ := agrees
    exact ⟨entry, entries entry member, own⟩
  case h_8 => exact trivial
  all_goals exact pending agrees

namespace Traced

theorem stay (traced : Traced start state order)
    {place : Place (BitVec (routine running.call).width.bits)}
    (moves : next.running = state.running.set index (running.goes place))
    (memory : next.memory = state.memory) (history : next.history = state.history)
    (own : Agrees state.memory state.history order index (running.goes place)) :
    Traced start next order := by
  refine ⟨?_, ?_, ?_⟩
  · rw [history, memory]
    exact traced.linearizes
  · intro entry member
    rw [moves, List.length_set]
    exact traced.bounded entry member
  · intro other second found
    rw [moves] at found
    rw [memory, history]
    rcases getElem?_move found with ⟨rfl, rfl⟩ | ⟨_, found⟩
    · exact own
    · exact traced.agrees other second found

theorem commit (traced : Traced start state order) (found : state.running[index]? = some running)
    (pending : Pending state.history order index running.call)
    {outcome : Outcome (BitVec (routine running.call).width.bits)}
    (moves : next.running = state.running.set index (running.goes (.unlock outcome)))
    (history : next.history = state.history)
    (effect : atomically routine state.memory running.call = (⟨_, outcome⟩, next.memory))
    (undisturbed : Undisturbed state next index) : ∃ order, Traced start next order := by
  have inside := (List.getElem?_eq_some_iff.mp found).1
  have linearizes := traced.linearizes.commit pending.invoked pending.fresh
  rw [effect] at linearizes
  refine ⟨order ++ [⟨index, running.call, ⟨_, outcome⟩⟩], ?_, ?_, ?_⟩
  · rw [history]
    exact linearizes
  · intro entry member
    rw [moves, List.length_set]
    rcases List.mem_append.mp member with old | new
    · exact traced.bounded entry old
    · obtain rfl := List.mem_singleton.mp new
      exact inside
  · intro other second foundOther
    rw [moves] at foundOther
    rw [history]
    rcases getElem?_move foundOther with ⟨rfl, rfl⟩ | ⟨different, wasOther⟩
    · exact ⟨_, List.mem_append_right _ (List.mem_singleton_self _), rfl, rfl⟩
    · refine (traced.agrees other second wasOther).other (fun _ member => member)
        (fun _ member => List.mem_append_left _ member) ?_
        (undisturbed other second · wasOther different)
      intro entry member
      rcases List.mem_append.mp member with old | new
      · exact Or.inl old
      · obtain rfl := List.mem_singleton.mp new
        exact Or.inr (Ne.symm different)

theorem respond (traced : Traced start state order)
    {outcome : Outcome (BitVec (routine running.call).width.bits)}
    (effective : ∃ entry ∈ order, entry.id = index ∧ entry.result = ⟨_, outcome⟩)
    (moves : next.running = state.running.set index (running.goes .over))
    (memory : next.memory = state.memory)
    (history : next.history = state.history ++ [.respond index ⟨_, outcome⟩]) :
    Traced start next order := by
  obtain ⟨entry, member, own, result⟩ := effective
  refine ⟨?_, ?_, ?_⟩
  · rw [history, memory, ← result]
    exact traced.linearizes.respond member own
  · intro entry member
    rw [moves, List.length_set]
    exact traced.bounded entry member
  · intro other second found
    rw [moves] at found
    rw [memory, history]
    rcases getElem?_move found with ⟨rfl, rfl⟩ | ⟨_, found⟩
    · exact trivial
    · exact (traced.agrees other second found).other
        (fun _ member => List.mem_append_left _ member) (fun _ member => member)
        (fun _ member => Or.inl member) (fun _ _ upToDate => upToDate)

theorem call (traced : Traced start state order) {new : Running routine}
    (more : next.running = state.running ++ [new]) (memory : next.memory = state.memory)
    (history : next.history = state.history ++ [.invoke state.running.length new.call])
    (own : Pending next.history order state.running.length new.call →
      Agrees next.memory next.history order state.running.length new) :
    Traced start next order := by
  have fresh : state.running.length ∉ order.map Entry.id := by
    intro member
    obtain ⟨entry, inside, isNew⟩ := List.mem_map.mp member
    have bound := traced.bounded entry inside
    omega
  have pending : Pending next.history order state.running.length new.call := by
    refine ⟨?_, fresh⟩
    rw [history]
    exact List.mem_append_right _ (List.mem_singleton_self _)
  refine ⟨?_, ?_, ?_⟩
  · rw [history, memory]
    exact traced.linearizes.invoke new.call fresh
  · intro entry member
    have bound := traced.bounded entry member
    rw [more, List.length_append]
    omega
  · intro other second found
    rw [more] at found
    rcases getElem?_concat found with wasOther | ⟨rfl, rfl⟩
    · rw [history, memory]
      exact (traced.agrees other second wasOther).other
        (fun _ member => List.mem_append_left _ member) (fun _ member => member)
        (fun _ member => Or.inl member) (fun _ _ upToDate => upToDate)
    · exact own pending

theorem load (traced : Traced start state order) (found : state.running[index]? = some running)
    {rest : BitVec (routine running.call).width.bits → Body (BitVec (routine running.call).width.bits)}
    (place : running.place = .inside (.load rest)) :
    ∃ order, Traced start
      (state.move index running (settle (rest (Cores.value state.memory running.call)))) order := by
  have agrees := traced.agrees index running found
  rw [Agrees, place] at agrees
  obtain ⟨pending, upToDate⟩ := agrees
  have run := upToDate.run
  rw [Body.run] at run
  cases left : rest (Cores.value state.memory running.call) with
  | done outcome =>
      refine traced.commit found pending rfl rfl ?_ (.of_eq rfl)
      rw [left, Body.run] at run
      rw [atomically, ← run]
      exact Prod.ext rfl write_read_self
  | load _ | store _ _ =>
      refine ⟨order, traced.stay rfl rfl rfl ⟨pending, ?_⟩⟩
      rw [← left]
      exact ⟨upToDate.follows.load, run, fun _ isDone => by
        rw [left] at isDone
        cases isDone⟩

theorem advance (active : ∀ call outcome, (routine call).body ≠ .done outcome)
    (traced : Traced start state order) (found : state.running[index]? = some running)
    (moved : state.advance index running = some next)
    (undisturbed : Undisturbed state next index) : ∃ order, Traced start next order := by
  have agrees := traced.agrees index running found
  simp only [Cores.advance] at moved
  split at moved
  case h_1 place | h_2 place | h_4 place =>
    rw [Agrees, place] at agrees
    obtain rfl := Option.some_inj.mp moved
    exact ⟨order, traced.stay rfl rfl rfl agrees⟩
  case h_3 place =>
    rw [Agrees, place] at agrees
    split at moved
    · obtain rfl := Option.some_inj.mp moved
      cases begins : (routine running.call).body with
      | done outcome => exact (active running.call outcome begins).elim
      | load _ | store _ _ =>
          refine ⟨order, traced.stay rfl rfl rfl ⟨agrees, ?_⟩⟩
          rw [← begins]
          exact ⟨.refl, rfl, active running.call⟩
    · obtain rfl := Option.some_inj.mp moved
      exact ⟨order, traced.stay rfl rfl rfl agrees⟩
  case h_5 rest place =>
    obtain rfl := Option.some_inj.mp moved
    exact traced.load found place
  case h_6 value outcome place =>
    rw [Agrees, place] at agrees
    obtain ⟨pending, upToDate⟩ := agrees
    obtain rfl := Option.some_inj.mp moved
    refine traced.commit found pending rfl rfl ?_ undisturbed
    rw [atomically, ← upToDate.run]
    rfl
  case h_7 outcome place =>
    rw [Agrees, place] at agrees
    exact (agrees.2.active outcome rfl).elim
  case h_8 outcome place =>
    rw [Agrees, place] at agrees
    obtain rfl := Option.some_inj.mp moved
    exact ⟨order, traced.stay rfl rfl rfl agrees⟩
  case h_9 outcome place =>
    rw [Agrees, place] at agrees
    obtain rfl := Option.some_inj.mp moved
    exact ⟨order, traced.respond agrees rfl rfl rfl⟩
  case h_10 place => cases moved

theorem step (active : ∀ call outcome, (routine call).body ≠ .done outcome)
    (traced : Traced start state order) {action : Action Call}
    (moved : state.step action = some next)
    (undisturbed : ∀ index, action = .act index → Undisturbed state next index) :
    ∃ order, Traced start next order := by
  cases action with
  | call core call =>
      obtain rfl := step_call moved
      refine ⟨order, traced.call rfl rfl rfl ?_⟩
      intro pending
      rw [Agrees]
      by_cases locks : (routine call).locks
      · simp only [locks, if_true]
        exact pending
      · simp only [locks, Bool.false_eq_true, if_false]
        exact ⟨pending, .refl, rfl, active call⟩
  | act index =>
      obtain ⟨running, found, _, moved⟩ := step_act moved
      exact traced.advance active found moved (undisturbed index rfl)

end Traced

theorem traced_of_begins {memory : Bytes} (begins : Cores.Begins memory state) :
    Traced memory state [] := by
  subst begins
  exact ⟨.nil, fun _ member => by simp at member, fun _ _ found => by simp at found⟩

theorem traced_of_guarded {guard : Cores routine → Action Call → Prop} {memory : Bytes}
    (active : ∀ call outcome, (routine call).body ≠ .done outcome)
    (undisturbed : ∀ state next order index, (coresSystem routine memory).Guarded guard state →
      Traced memory state order → guard state (.act index) →
        state.step (.act index) = some next → Undisturbed state next index)
    (reached : (coresSystem routine memory).Guarded guard state) :
    ∃ order, Traced memory state order := by
  induction reached with
  | start begins => exact ⟨[], traced_of_begins begins⟩
  | step before allowed moved ih =>
      obtain ⟨order, traced⟩ := ih
      refine traced.step active moved ?_
      rintro index rfl
      exact undisturbed _ _ order index before traced allowed moved

end

structure AtomicCall where
  width : Width
  mem : Word
  operation : Operation (BitVec width.bits)

namespace AtomicCall

def routine (call : AtomicCall) : Routine where
  width := call.width
  mem := call.mem
  body := call.operation.body call.width

def effect (memory : Bytes) (call : AtomicCall) : Returned × Bytes :=
  let result := call.operation.effect (read memory call.mem.toNat call.width.bytes)
  (⟨call.width, result.1⟩, write memory call.mem.toNat call.width.bytes result.2)

/-- The variable is aligned, and 8 bytes wide if and only if its block holds such a variable. -/
structure Natural (wide : Nat → Prop) (call : AtomicCall) : Prop where
  aligned : call.mem.toNat % call.width.bytes = 0
  wide : call.width = .eight ↔ wide (call.mem.toNat / 8)

theorem atomically_routine : atomically routine = effect := by
  funext memory call
  have run := call.operation.body_run call.width (read memory call.mem.toNat call.width.bytes)
  exact congrArg (fun result : Outcome (BitVec call.width.bits) × BitVec call.width.bits =>
    ((⟨call.width, result.1⟩, write memory call.mem.toNat call.width.bytes result.2) :
      Returned × Bytes)) run

theorem active (call : AtomicCall) (outcome : Outcome (BitVec call.width.bits)) :
    call.routine.body ≠ .done outcome := by
  obtain ⟨width, mem, operation⟩ := call
  intro isDone
  cases width with
  | _ =>
      cases operation with
      | _ => cases isDone

theorem apart_of_lockIdx_ne {wide : Nat → Prop} {one other : AtomicCall} (first : one.Natural wide)
    (second : other.Natural wide) (different : lockIdx one.mem ≠ lockIdx other.mem) :
    one.mem.toNat + one.width.bytes ≤ other.mem.toNat ∨
      other.mem.toNat + other.width.bytes ≤ one.mem.toNat := by
  have indices : one.mem.toNat / 4 % 16 ≠ other.mem.toNat / 4 % 16 := by
    rw [← toNat_lockIdx, ← toNat_lockIdx]
    exact fun same => different (BitVec.eq_of_toNat_eq same)
  obtain ⟨aligned, isWide⟩ := first
  obtain ⟨alignedOther, isWideOther⟩ := second
  have blocks : one.mem.toNat / 8 = other.mem.toNat / 8 →
      (one.width = .eight ↔ other.width = .eight) := by
    intro same
    rw [isWide, isWideOther, same]
  revert aligned alignedOther blocks
  cases one.width with
  | _ =>
      cases other.width with
      | _ =>
          simp only [Width.bytes, reduceCtorEq, iff_true, iff_false, not_true, imp_false]
          intro aligned alignedOther blocks
          omega

end AtomicCall

def NaturalCalls (wide : Nat → Prop) (_ : Cores AtomicCall.routine) : Action AtomicCall → Prop
  | .call _ call => call.Natural wide
  | .act _ => True

abbrev atomicSystem (memory : Bytes) : System (Cores AtomicCall.routine) (Action AtomicCall) :=
  coresSystem AtomicCall.routine memory

section

variable {memory : Bytes} {state next : Cores AtomicCall.routine} {index : Nat}
  {running : Running AtomicCall.routine} {wide : Nat → Prop}

theorem advance_running (moved : state.advance index running = some next) :
    ∃ place, next.running = state.running.set index (running.goes place) := by
  simp only [Cores.advance] at moved
  split at moved
  case h_3 =>
    split at moved
    all_goals
      obtain rfl := Option.some_inj.mp moved
      exact ⟨_, rfl⟩
  case h_10 => cases moved
  all_goals
    obtain rfl := Option.some_inj.mp moved
    exact ⟨_, rfl⟩

theorem advance_memory (moved : state.advance index running = some next) :
    next.memory = state.memory ∨ running.owns ∧ ∃ value, next.memory =
      write state.memory running.mem.toNat (running.call.routine).width.bytes value := by
  simp only [Cores.advance] at moved
  split at moved
  case h_3 =>
    split at moved
    all_goals
      obtain rfl := Option.some_inj.mp moved
      exact Or.inl rfl
  case h_6 value outcome place =>
    obtain rfl := Option.some_inj.mp moved
    refine Or.inr ⟨?_, value, rfl⟩
    rw [Running.owns, place]
    rfl
  case h_10 => cases moved
  all_goals
    obtain rfl := Option.some_inj.mp moved
    exact Or.inl rfl

theorem natural_of_guarded (reached : (atomicSystem memory).Guarded (NaturalCalls wide) state) :
    ∀ (index : Nat) (running : Running AtomicCall.routine), state.running[index]? = some running →
      running.call.Natural wide := by
  induction reached with
  | start begins =>
      obtain rfl := begins
      intro index running found
      simp at found
  | @step _ action _ _ allowed moved ih =>
      intro other second found
      cases action with
      | call core call =>
          obtain rfl := step_call moved
          rcases getElem?_concat found with old | ⟨_, rfl⟩
          · exact ih other second old
          · exact allowed
      | act index =>
          obtain ⟨running, wasAt, _, moved⟩ := step_act moved
          obtain ⟨place, moves⟩ := advance_running moved
          rw [moves] at found
          rcases getElem?_move found with ⟨rfl, rfl⟩ | ⟨_, old⟩
          · exact ih other running wasAt
          · exact ih other second old

theorem undisturbed_of_natural
    (reached : (atomicSystem memory).Guarded (NaturalCalls wide) state)
    (moved : state.step (.act index) = some next) : Undisturbed state next index := by
  have natural := natural_of_guarded reached
  obtain ⟨running, found, masks, moved⟩ := step_act moved
  rcases advance_memory moved with same | ⟨owns, value, written⟩
  · exact .of_eq same
  · intro other second body foundOther different place upToDate
    have ownsOther : second.owns := by
      rw [Running.owns, place]
      rfl
    have locks := (sound_of_guarded reached).apart index other running second found foundOther
      (Ne.symm different) owns ownsOther
    have apart := AtomicCall.apart_of_lockIdx_ne (natural index running found)
      (natural other second foundOther) locks
    have same : @Cores.value _ AtomicCall.routine next.memory second.call =
        Cores.value state.memory second.call := by
      rw [written]
      exact read_write_of_apart apart.symm
    refine ⟨upToDate.follows, ?_, upToDate.active⟩
    rw [same]
    exact upToDate.run

/-- Every run of the atomic functions is linearisable, and at most one call at a time is between lock and
unlock of one lock. -/
theorem atomics_linearizable (reached : (atomicSystem memory).Guarded (NaturalCalls wide) state) :
    Linearizable AtomicCall.effect memory state.history state.memory ∧
      ∀ (first second : Nat) (one other : Running AtomicCall.routine),
        state.running[first]? = some one → state.running[second]? = some other → one.owns →
          other.owns → lockIdx one.mem = lockIdx other.mem → first = second := by
  constructor
  · obtain ⟨order, traced⟩ := traced_of_guarded AtomicCall.active
      (fun _ _ _ _ before _ _ moved => undisturbed_of_natural before moved) reached
    rw [← AtomicCall.atomically_routine]
    exact ⟨order, traced.linearizes⟩
  · intro first second one other found foundOther owns ownsOther same
    by_contra different
    exact (sound_of_guarded reached).apart first second one other found foundOther different owns
      ownsOther same

theorem atomics_linearizable_run : ∃ state : Cores AtomicCall.routine,
    Linearizable AtomicCall.effect (fun _ => 0) state.history state.memory ∧
      state.memory 64 = 2 ∧ state.history.length = 4 := by
  let add : AtomicCall := ⟨.one, 64, .fetchAdd 1⟩
  obtain ⟨state, reached, check⟩ := @System.exists_of_run _ _ (atomicSystem fun _ => 0)
    (NaturalCalls fun _ => False)
    (fun
      | _, .call _ call => decidable_of_iff
          (call.mem.toNat % call.width.bytes = 0 ∧ call.width ≠ .eight)
          ⟨fun holds => ⟨holds.1, by simp [holds.2]⟩,
            fun natural => ⟨natural.1, by simp [natural.2]⟩⟩
      | _, .act _ => isTrue trivial)
    _ rfl
    ([.call 0 add, .call 1 add] ++ [0, 1, 0, 1, 1, 1, 0, 0, 0, 0, 0, 0, 1, 1, 1, 1, 1, 1, 1].map .act)
    (fun state => state.memory 64 = 2 ∧ state.history.length = 4)
    (fun _ => inferInstanceAs (Decidable (_ ∧ _))) (by decide)
  exact ⟨state, (atomics_linearizable reached).1, check⟩

end

end PicoToolkit.Atomic
