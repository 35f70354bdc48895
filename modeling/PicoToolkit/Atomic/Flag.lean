import PicoToolkit.Atomic.Linearizable

/-!
`atomic_flag`: `__atomic_test_and_set_m0` works under the lock of the flag, `__atomic_clear_m0` stores
without it.
-/

namespace PicoToolkit.Atomic

open Transition Linearization Memory

inductive FlagCall where
  | testAndSet
  | clear
  deriving DecidableEq

namespace FlagCall

def routine (flag : Word) (call : FlagCall) : Routine where
  width := .one
  mem := flag
  locks := decide (call = .testAndSet)
  body :=
    match call with
    | .testAndSet => atomicTestAndSetM0
    | .clear => atomicClearM0

def effect (flag : Word) (memory : Bytes) : FlagCall → Returned × Bytes
  | .testAndSet =>
      (⟨.one, .returned (read memory flag.toNat 1)⟩, write memory flag.toNat 1 (1 : BitVec 8))
  | .clear => (⟨.one, .nothing⟩, write memory flag.toNat 1 (0 : BitVec 8))

theorem atomically_routine (flag : Word) : atomically (routine flag) = effect flag := by
  funext memory call
  cases call with
  | _ => rfl

end FlagCall

section

variable {flag : Word} {memory : Bytes} {state next : Cores (FlagCall.routine flag)} {index : Nat}
  {running : Running (FlagCall.routine flag)}

abbrev flagSystem (flag : Word) (memory : Bytes) :
    System (Cores (FlagCall.routine flag)) (Action FlagCall) :=
  coresSystem (FlagCall.routine flag) memory

def Running.setsAgain (running : Running (FlagCall.routine flag)) : Bool :=
  match running.place with
  | .inside (.store _ (.returned value)) => decide (value.toNat ≠ 0)
  | _ => false

def Running.stores (running : Running (FlagCall.routine flag)) : Bool :=
  match running.place with
  | .inside (.store _ _) => true
  | _ => false

def ClearsApart (state : Cores (FlagCall.routine flag)) : Action FlagCall → Prop
  | .call _ _ => True
  | .act index => ∀ running ∈ state.running[index]?, running.call = .clear → running.stores →
      ∀ other ∈ state.running, ¬ other.setsAgain

theorem follows_testAndSet {body : Body (BitVec 8)} (follows : Follows atomicTestAndSetM0 body) :
    body = atomicTestAndSetM0 ∨ ∃ value, body = .store 1 (.returned value) := by
  induction follows with
  | refl => exact Or.inl rfl
  | load _ ih =>
      rcases ih with whole | ⟨value, stored⟩
      · cases whole
        exact Or.inr ⟨_, rfl⟩
      · cases stored

theorem follows_clear {body : Body (BitVec 8)} (follows : Follows atomicClearM0 body) :
    body = atomicClearM0 := by
  induction follows with
  | refl => rfl
  | load _ ih => cases ih

theorem upToDate_clear {after : Bytes} {call : FlagCall}
    {body : Body (BitVec (FlagCall.routine flag call).width.bits)} (isClear : call = .clear)
    (upToDate : UpToDate memory call body) : UpToDate after call body := by
  subst isClear
  have whole := follows_clear upToDate.follows
  exact ⟨upToDate.follows, by rw [whole]; rfl, upToDate.active⟩

theorem upToDate_cleared {after : Bytes} {body : Body (BitVec 8)}
    (upToDate : @UpToDate _ (FlagCall.routine flag) memory .testAndSet body)
    (clear : ∀ value, body = .store 1 (.returned value) → value = 0)
    (cleared : read after flag.toNat 1 = (0 : BitVec 8)) :
    @UpToDate _ (FlagCall.routine flag) after .testAndSet body := by
  refine ⟨upToDate.follows, ?_, upToDate.active⟩
  rcases follows_testAndSet upToDate.follows with whole | ⟨value, stored⟩
  · rw [whole]
    rfl
  · have zero := clear value stored
    have isCleared : @Cores.value _ (FlagCall.routine flag) after .testAndSet = (0 : BitVec 8) :=
      cleared
    rw [isCleared, stored, zero]
    rfl

theorem upToDate_other {after : Bytes} {other : Running (FlagCall.routine flag)}
    {body : Body (BitVec (FlagCall.routine flag other.call).width.bits)}
    (place : other.place = .inside body) (upToDate : UpToDate memory other.call body)
    (clear : ¬ other.setsAgain) (cleared : read after flag.toNat 1 = (0 : BitVec 8)) :
    UpToDate after other.call body := by
  obtain ⟨core, call, _⟩ := other
  cases call with
  | clear => exact upToDate_clear rfl upToDate
  | testAndSet =>
      refine upToDate_cleared upToDate ?_ cleared
      rintro value rfl
      rw [Running.setsAgain, place, decide_eq_true_eq, not_not] at clear
      exact BitVec.eq_of_toNat_eq clear

theorem stored_of_clear {call : FlagCall}
    {stored : BitVec (FlagCall.routine flag call).width.bits}
    {outcome : Outcome (BitVec (FlagCall.routine flag call).width.bits)} (isClear : call = .clear)
    (upToDate : UpToDate memory call (.store stored outcome)) : stored = (0 : BitVec 8) := by
  subst isClear
  cases follows_clear upToDate.follows
  rfl

theorem read_cleared {value : BitVec 8} (zero : value = 0) :
    read (write memory flag.toNat 1 value) flag.toNat 1 = (0 : BitVec 8) :=
  (@read_write_self memory flag.toNat 1 value).trans zero

theorem owns_of_inside {body : Body (BitVec (FlagCall.routine flag running.call).width.bits)}
    (place : running.place = .inside body) (notClear : running.call ≠ .clear) : running.owns := by
  obtain ⟨core, call, _⟩ := running
  cases call with
  | clear => exact (notClear rfl).elim
  | testAndSet =>
      rw [Running.owns, place]
      rfl

theorem undisturbed_of_clearsApart {order : Order FlagCall} (sound : Sound state)
    (traced : Traced memory state order) (apart : ClearsApart state (.act index))
    (moved : state.step (.act index) = some next) : Undisturbed state next index := by
  obtain ⟨running, found, _, moved⟩ := step_act moved
  have agrees := traced.agrees index running found
  simp only [Cores.advance] at moved
  split at moved
  case h_3 =>
    split at moved
    all_goals
      obtain rfl := Option.some_inj.mp moved
      exact .of_eq rfl
  case h_6 stored outcome place =>
    obtain rfl := Option.some_inj.mp moved
    rw [Agrees, place] at agrees
    intro other second body foundOther different placeOther upToDate
    by_cases isClear : running.call = .clear
    · have stores : running.stores := by
        rw [Running.stores, place]
      exact upToDate_other placeOther upToDate
        (apart running found isClear stores second (List.mem_of_getElem? foundOther))
        (read_cleared (stored_of_clear isClear agrees.2))
    · by_cases isClearOther : second.call = .clear
      · exact upToDate_clear isClearOther upToDate
      · -- both would hold the one lock
        exact (sound.apart index other running second found foundOther (Ne.symm different)
          (owns_of_inside place isClear) (owns_of_inside placeOther isClearOther) rfl).elim
  case h_10 => cases moved
  all_goals
    obtain rfl := Option.some_inj.mp moved
    exact .of_eq rfl

theorem FlagCall.active (call : FlagCall)
    (outcome : Outcome (BitVec (FlagCall.routine flag call).width.bits)) :
    (FlagCall.routine flag call).body ≠ .done outcome := by
  intro isDone
  cases call with
  | _ => cases isDone

/-- If no clear stores between the load of a set flag and the store that follows it, the calls are
linearisable. -/
theorem flag_linearizable (reached : (flagSystem flag memory).Guarded ClearsApart state) :
    Linearizable (FlagCall.effect flag) memory state.history state.memory := by
  obtain ⟨order, traced⟩ := traced_of_guarded FlagCall.active
    (fun _ _ _ _ before traced apart moved =>
      undisturbed_of_clearsApart (sound_of_guarded before) traced apart moved) reached
  rw [← FlagCall.atomically_routine]
  exact ⟨order, traced.linearizes⟩

instance (state : Cores (FlagCall.routine flag)) (action : Action FlagCall) :
    Decidable (ClearsApart state action) :=
  match action with
  | .call _ _ => isTrue trivial
  | .act index =>
      match found : state.running[index]? with
      | none => isTrue fun _ other => by simp [found] at other
      | some running =>
          decidable_of_iff (running.call = .clear → running.stores →
            ∀ other ∈ state.running, ¬ other.setsAgain) <| by simp [ClearsApart, found]

end

theorem flag_linearizable_run : ∃ state : Cores (FlagCall.routine 64),
    Linearizable (FlagCall.effect 64) (fun _ => 0) state.history state.memory ∧
      state.memory 64 = 1 ∧ state.history.length = 4 := by
  obtain ⟨state, reached, check⟩ := @System.exists_of_run _ _ (flagSystem 64 fun _ => 0)
    ClearsApart _ _ rfl
    ([.call 0 .testAndSet, .call 1 .clear] ++ [0, 0, 0, 0, 1, 1, 1, 0, 0, 0].map .act)
    (fun state => state.memory 64 = 1 ∧ state.history.length = 4)
    (fun _ => inferInstanceAs (Decidable (_ ∧ _))) (by decide)
  exact ⟨state, flag_linearizable reached, check⟩

/-- The test-and-set of one core finds the flag set, the other core clears it, and the store of the
first brings the flag back. -/
theorem not_flag_linearizable : ∃ state : Cores (FlagCall.routine 64),
    (flagSystem 64 fun _ => 1).Reachable state ∧
      ¬ Linearizable (FlagCall.effect 64) (fun _ => 1) state.history state.memory := by
  obtain ⟨state, reached, memory, history⟩ := @System.exists_of_run _ _ (flagSystem 64 fun _ => 1)
    (fun _ _ => True) _ _ rfl
    ([.call 0 .testAndSet, .call 1 .clear] ++ [0, 0, 0, 0, 1, 1, 1, 0, 0, 0].map .act)
    (fun state => state.memory 64 = 1 ∧ state.history =
      [.invoke 0 .testAndSet, .invoke 1 .clear, .respond 1 ⟨.one, .nothing⟩,
        .respond 0 ⟨.one, .returned (1 : BitVec 8)⟩])
    (fun _ => inferInstanceAs (Decidable (_ ∧ _))) (by decide)
  refine ⟨state, reached, ?_⟩
  rw [history]
  rintro ⟨order, linearizes⟩
  obtain ⟨setter, inOrder, isSetter, setterResult⟩ := linearizes.responded 0
    ⟨.one, .returned (1 : BitVec 8)⟩ (by simp)
  obtain ⟨clearer, inOrderToo, isClearer, _⟩ := linearizes.responded 1 ⟨.one, .nothing⟩ (by simp)
  have setterCall : setter.call = .testAndSet := by
    simpa [isSetter] using linearizes.invoked setter inOrder
  have clearerCall : clearer.call = .clear := by
    simpa [isClearer] using linearizes.invoked clearer inOrderToo
  have final : ∀ memory, state.memory = write memory 64 1 (0 : BitVec 8) → False := by
    intro before after
    rw [after, write, if_pos (by decide)] at memory
    revert memory
    decide
  rcases eq_pair_of_nodup linearizes.nodup inOrder inOrderToo (by omega) fun entry member => by
    have invoked := linearizes.invoked entry member
    simp only [List.mem_cons, Event.invoke.injEq, reduceCtorEq, List.not_mem_nil, or_false] at invoked
    omega
    with rfl | rfl
  · obtain ⟨_, _, last⟩ := linearizes.legal
    rw [clearerCall] at last
    exact final _ last.symm
  · obtain ⟨_, first, _⟩ := linearizes.legal
    rw [clearerCall, setterCall, setterResult] at first
    revert first
    decide

end PicoToolkit.Atomic
