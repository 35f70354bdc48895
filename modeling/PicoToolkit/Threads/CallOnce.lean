import PicoToolkit.Threads.Abstraction

/-!
`call_once` and `osCallOnce`: the first caller to claim the flag runs the function, and the others
wait until the flag says that it is done.
-/

namespace PicoToolkit

open Transition Interleaving

structure FunctionRuns where
  started : Nat := 0
  finished : Nat := 0
  deriving DecidableEq

/-- Where a call is; it has set up a futex on its stack, unless the flag said that all is done. -/
inductive OncePlace where
  | load (futex : Word)
  | init (futex : Word)
  | claim (futex : Word)
  | exchange (futex : Word)
  | wait (futex expected : Word)
  | func (futex : Word)
  | inFunc (futex : Word)
  | store (futex : Word)
  | wake (futex : Word)
  | done
  deriving DecidableEq

def onceOp (flag : Word) : OncePlace → Option (ThreadOp FunctionRuns OncePlace)
  | .load futex => some <| .word flag fun value => (value, if value = 2 then .done else .init futex)
  | .init futex => some <| .service (.init futex flag 0) fun _ => .claim futex
  | .claim futex => some <| .word flag fun value =>
      if value = 0 then (1, .func futex) else (value, .exchange futex)
  | .exchange futex => some <| .word flag fun value =>
      if value = 2 then (2, .done) else (value, .wait futex value)
  | .wait futex expected => some <|
      .service (.wait futex expected schedulerWaitForever) fun _ => .exchange futex
  | .func futex => some <| .data fun runs => ({ runs with started := runs.started + 1 }, .inFunc futex)
  | .inFunc futex => some <|
      .data fun runs => ({ runs with finished := runs.finished + 1 }, .store futex)
  | .store futex => some <| .word flag fun _ => (2, .wake futex)
  | .wake futex => some <| .service (.wake futex true) fun _ => .done
  | .done => none

inductive OnceCall where
  | callOnce (futex : Word)
  | osCallOnce (futex : Word)

def onceProgram (flag : Word) : ThreadProgram FunctionRuns OncePlace OnceCall where
  enter
    | (_, .callOnce futex) => .load futex
    | (_, .osCallOnce futex) => .load futex
  op := onceOp flag
  callsBack
    | .inFunc _ => true
    | _ => false

abbrev onceSystem (cores : Nat) [NeZero cores] (flag : Word) :
    System (Machine cores FunctionRuns OncePlace) (Label cores OnceCall) :=
  machineSystem (onceProgram flag) (fun address => decide (address ∈ [flag])) (fun _ => 0) {}

namespace OncePlace

def claims : OncePlace → Bool
  | .func _ | .inFunc _ | .store _ => true
  | _ => false

def hasStarted : OncePlace → Bool
  | .inFunc _ | .store _ => true
  | _ => false

def hasFinished : OncePlace → Bool
  | .store _ => true
  | _ => false

def isPast : OncePlace → Bool
  | .wake _ | .done => true
  | _ => false

end OncePlace

def callsAt (kind : OncePlace → Bool) (places : List OncePlace) : Int :=
  total (fun place => (kind place).toNat) places

structure Once (flag : Word) (runs : FunctionRuns) (places : List OncePlace) : Prop where
  value : flag = 0 ∨ flag = 1 ∨ flag = 2
  claims : callsAt OncePlace.claims places = if flag = 1 then 1 else 0
  started : (runs.started : Int) =
    callsAt OncePlace.hasStarted places + if flag = 2 then 1 else 0
  finished : (runs.finished : Int) =
    callsAt OncePlace.hasFinished places + if flag = 2 then 1 else 0
  past : ∀ place ∈ places, place.isPast → flag = 2

theorem callsAt_set {kind : OncePlace → Bool} {places : List OncePlace} {index : Nat}
    {place : OncePlace} (found : places[index]? = some place) (next : OncePlace) :
    callsAt kind (places.set index next) =
      callsAt kind places - (kind place).toNat + (kind next).toNat :=
  total_set found next

theorem callsAt_nonneg {kind : OncePlace → Bool} {places : List OncePlace} :
    0 ≤ callsAt kind places :=
  total_nonneg fun _ => Int.natCast_nonneg _

theorem callsAt_mono {kind larger : OncePlace → Bool} {places : List OncePlace}
    (implies : ∀ place, kind place → larger place) : callsAt kind places ≤ callsAt larger places := by
  refine total_mono fun place => ?_
  cases isKind : kind place with
  | false => simp
  | true => rw [implies place isKind]

theorem past_set {flag value : Word} {places : List OncePlace} {index : Nat} {next : OncePlace}
    (past : ∀ place ∈ places, place.isPast → flag = 2) (keeps : flag = 2 → value = 2)
    (own : next.isPast → value = 2) :
    ∀ place ∈ places.set index next, place.isPast → value = 2 := by
  intro place member isPast
  rcases List.mem_or_eq_of_mem_set member with old | rfl
  · exact keeps (past place old isPast)
  · exact own isPast

namespace Once

variable {flag : Word} {runs : FunctionRuns} {places : List OncePlace} {index : Nat}
  {place next : OncePlace} {futex : Word}

theorem move (once : Once flag runs places) (found : places[index]? = some place)
    (claims : next.claims = place.claims) (started : next.hasStarted = place.hasStarted)
    (finished : next.hasFinished = place.hasFinished) (own : next.isPast → flag = 2) :
    Once flag runs (places.set index next) := by
  refine ⟨once.value, ?_, ?_, ?_, past_set once.past id own⟩
  · rw [callsAt_set found, claims, once.claims]
    omega
  · rw [callsAt_set found, started, once.started]
    omega
  · rw [callsAt_set found, finished, once.finished]
    omega

theorem claim (once : Once flag runs places) (found : places[index]? = some (.claim futex))
    (free : flag = 0) : Once 1 runs (places.set index (.func futex)) := by
  subst free
  obtain ⟨_, claims, started, finished, past⟩ := once
  refine ⟨by simp, ?_, ?_, ?_, past_set past (by simp) fun isPast => by cases isPast⟩
  · rw [callsAt_set found, claims]
    simp [OncePlace.claims]
  · rw [callsAt_set found, started]
    simp [OncePlace.hasStarted]
  · rw [callsAt_set found, finished]
    simp [OncePlace.hasFinished]

theorem claimed (once : Once flag runs places) (found : places[index]? = some place)
    (isClaim : place.claims) : flag = 1 := by
  by_contra other
  have own : ((place.claims).toNat : Int) ≤ callsAt OncePlace.claims places :=
    le_total (fun _ => Int.natCast_nonneg _) found
  rw [once.claims, isClaim, if_neg other] at own
  simp at own

theorem start (once : Once flag runs places) (found : places[index]? = some (.func futex)) :
    Once flag { runs with started := runs.started + 1 } (places.set index (.inFunc futex)) := by
  have isOne := once.claimed found rfl
  subst isOne
  obtain ⟨value, claims, started, finished, past⟩ := once
  refine ⟨value, ?_, ?_, ?_, past_set past id fun isPast => by cases isPast⟩
  · rw [callsAt_set found, claims]
    simp [OncePlace.claims]
  · rw [callsAt_set found]
    simp [OncePlace.hasStarted, started]
  · rw [callsAt_set found, finished]
    simp [OncePlace.hasFinished]

theorem finish (once : Once flag runs places) (found : places[index]? = some (.inFunc futex)) :
    Once flag { runs with finished := runs.finished + 1 } (places.set index (.store futex)) := by
  have isOne := once.claimed found rfl
  subst isOne
  obtain ⟨value, claims, started, finished, past⟩ := once
  refine ⟨value, ?_, ?_, ?_, past_set past id fun isPast => by cases isPast⟩
  · rw [callsAt_set found, claims]
    simp [OncePlace.claims]
  · rw [callsAt_set found, started]
    simp [OncePlace.hasStarted]
  · rw [callsAt_set found]
    simp [OncePlace.hasFinished, finished]

theorem store (once : Once flag runs places) (found : places[index]? = some (.store futex)) :
    Once 2 runs (places.set index (.wake futex)) := by
  have isOne := once.claimed found rfl
  subst isOne
  obtain ⟨value, claims, started, finished, past⟩ := once
  refine ⟨by simp, ?_, ?_, ?_, past_set past (by simp) (by simp)⟩
  · rw [callsAt_set found, claims]
    simp [OncePlace.claims]
  · rw [callsAt_set found, started]
    simp [OncePlace.hasStarted]
  · rw [callsAt_set found, finished]
    simp [OncePlace.hasFinished]

theorem call (once : Once flag runs places) : Once flag runs (places ++ [.load futex]) := by
  obtain ⟨value, claims, started, finished, past⟩ := once
  refine ⟨value, ?_, ?_, ?_, ?_⟩
  · rw [callsAt, total_append, ← claims]
    simp [callsAt, OncePlace.claims]
  · rw [callsAt, total_append, started]
    simp [callsAt, OncePlace.hasStarted]
  · rw [callsAt, total_append, finished]
    simp [callsAt, OncePlace.hasFinished]
  · intro place member isPast
    rcases List.mem_append.mp member with old | new
    · exact past place old isPast
    · obtain rfl := List.mem_singleton.mp new
      cases isPast

theorem started_le_claims :
    callsAt OncePlace.hasStarted places ≤ callsAt OncePlace.claims places :=
  callsAt_mono fun place starts => by
    cases place with
    | inFunc | store => rfl
    | _ => cases starts

theorem finished_le_started :
    callsAt OncePlace.hasFinished places ≤ callsAt OncePlace.hasStarted places :=
  callsAt_mono fun place ends => by
    cases place with
    | store => rfl
    | _ => cases ends

theorem started_le (once : Once flag runs places) : runs.started ≤ 1 := by
  have within := @started_le_claims places
  have started := once.started
  rw [once.claims] at within
  rcases once.value with rfl | rfl | rfl
  · simp only [show ¬(0 : Word) = 1 by decide, show ¬(0 : Word) = 2 by decide, if_false] at *
    omega
  · simp only [show ¬(1 : Word) = 2 by decide, if_true, if_false] at *
    omega
  · simp only [show ¬(2 : Word) = 1 by decide, if_true, if_false] at *
    omega

theorem complete (once : Once 2 runs places) : runs.started = 1 ∧ runs.finished = 1 := by
  have none : callsAt OncePlace.claims places = 0 := once.claims
  have started := once.started
  have finished := once.finished
  have within := @started_le_claims places
  have ends := @finished_le_started places
  have positive := @callsAt_nonneg OncePlace.hasFinished places
  rw [if_pos rfl] at started finished
  constructor
  · omega
  · omega

end Once

theorem Once.step {flag : Word} {shared next : Shared Word Word FunctionRuns OncePlace}
    {move : Move Result (Context × OnceCall)}
    (once : Once (shared.memory flag) shared.data shared.places)
    (moved : (onceProgram flag).step shared move = some next) :
    Once (next.memory flag) next.data next.places := by
  cases move with
  | call entry =>
      obtain rfl := Option.some_inj.mp moved
      obtain ⟨context, call⟩ := entry
      cases call with
      | callOnce futex => exact once.call
      | osCallOnce futex => exact once.call
  | act index answer =>
      obtain ⟨place, op, found, isNext, rfl⟩ := Program.step_act moved
      cases place with
      | load futex =>
          obtain rfl := Option.some_inj.mp isNext
          simp only [Program.perform, Function.update_eq_self]
          by_cases done : shared.memory flag = 2
          · rw [if_pos done]
            exact once.move found rfl rfl rfl fun _ => done
          · rw [if_neg done]
            exact once.move found rfl rfl rfl fun isPast => by cases isPast
      | init futex =>
          obtain rfl := Option.some_inj.mp isNext
          exact once.move found rfl rfl rfl fun isPast => by cases isPast
      | claim futex =>
          obtain rfl := Option.some_inj.mp isNext
          simp only [Program.perform]
          by_cases free : shared.memory flag = 0
          · rw [if_pos free, Function.update_self]
            exact once.claim found free
          · rw [if_neg free, Function.update_self]
            exact once.move found rfl rfl rfl fun isPast => by cases isPast
      | exchange futex =>
          obtain rfl := Option.some_inj.mp isNext
          simp only [Program.perform]
          by_cases done : shared.memory flag = 2
          · rw [if_pos done, Function.update_self]
            rw [done] at once
            exact once.move found rfl rfl rfl fun _ => rfl
          · rw [if_neg done, Function.update_self]
            exact once.move found rfl rfl rfl fun isPast => by cases isPast
      | wait futex expected =>
          obtain rfl := Option.some_inj.mp isNext
          exact once.move found rfl rfl rfl fun isPast => by cases isPast
      | func futex =>
          obtain rfl := Option.some_inj.mp isNext
          exact once.start found
      | inFunc futex =>
          obtain rfl := Option.some_inj.mp isNext
          exact once.finish found
      | store futex =>
          obtain rfl := Option.some_inj.mp isNext
          simp only [Program.perform, Function.update_self]
          exact once.store found
      | wake futex =>
          obtain rfl := Option.some_inj.mp isNext
          refine once.move found rfl rfl rfl fun _ => ?_
          exact once.past _ (List.mem_of_getElem? found) rfl
      | done => cases isNext

theorem confined_onceProgram (flag : Word) :
    Confined (fun address => decide (address ∈ [flag])) (onceProgram flag) := by
  constructor
  · intro place address act isNext
    suffices same : address = flag by simp [same]
    cases place with
    | _ =>
        cases isNext
        try rfl
  · intro place futex value flags resume isNext
    cases place with
    | init other =>
        cases isNext
        rfl
    | _ => cases isNext

/-- The function is started at most once, and once a call is over it has been started once and has
returned. -/
theorem once_of_reachable {cores : Nat} [NeZero cores] {flag : Word}
    {machine : Machine cores FunctionRuns OncePlace}
    (reached : (onceSystem cores flag).Reachable machine) :
    machine.data.started ≤ 1 ∧
      ∀ call ∈ machine.calls, call.place = .done →
        machine.data.started = 1 ∧ machine.data.finished = 1 := by
  let cells := fun address : Word => decide (address ∈ [flag])
  have isCell : cells flag := by simp [cells]
  have once : Once ((machine.shared cells).memory flag) machine.data
      (machine.calls.map Call.place) := by
    refine invariant_of_reachable (fun shared => Once (shared.memory flag) shared.data shared.places)
      (confined_onceProgram flag) ?_ ?_ reached
    · constructor
      · simp
      · simp [callsAt]
      · simp [callsAt]
      · simp [callsAt]
      · simp
    · exact fun shared move next once moved => once.step moved
  refine ⟨once.started_le, fun call member isDone => ?_⟩
  have complete := once.past call.place (List.mem_map_of_mem member) (by rw [isDone]; rfl)
  rw [complete] at once
  exact once.complete

/-- Two tasks, the second of which is less urgent. -/
def twoRunners : List (Action 1) :=
  [Action.create 0 0x1000 { flags := schedulerPrimordialTask, priority := 32 },
    .create 0 0x2000 { priority := 30 }, .create 0 0x3000 { priority := 31 }, .start 0] ++ switchPass

/-- The first task sleeps in the function, and the second one loses the claim.  Before it waits the function
returns and the flag says so; the wait does not find what it expects. -/
def losingRun : List (Label 1 OnceCall) :=
  List.flatten [[.call 0 (.callOnce 0x100)], List.replicate 4 (.act 0 0),
    (Action.sleep 0 1 :: switchPass).map .kernel, [.call 0 (.osCallOnce 0x200)],
    List.replicate 4 (.act 0 1), (Action.tick 0 :: switchPass ++ [Action.switchStep 0]).map .kernel,
    List.replicate 3 (.act 0 0), (Action.sleep 0 1 :: switchPass).map .kernel, [.act 0 1],
    switchPass.map .kernel, List.replicate 2 (.act 0 1)]

theorem once_of_reachable_twoCalls :
    ∃ machine : Machine 1 FunctionRuns OncePlace, machine.calls.map Call.place = [.done, .done] ∧
      machine.data.started ≤ 1 ∧ machine.data.finished = 1 := by
  obtain ⟨machine, reached, areDone⟩ := exists_machine (onceProgram 0x104) (fun _ _ => True) [0x104]
    (fun _ => 0) {} twoRunners losingRun
    (fun machine => machine.calls.map Call.place = [.done, .done]) (by decide +kernel)
  obtain ⟨call, member, place⟩ := List.mem_map.mp (areDone ▸ List.mem_cons_self)
  obtain ⟨started, ends⟩ := once_of_reachable reached
  exact ⟨machine, areDone, started, (ends call member place).2⟩

end PicoToolkit
