import PicoToolkit.Threads.Blocking
import PicoToolkit.Threads.CallOnce

/-!
The callers that wait in `call_once` and `osCallOnce`: each waits on a futex of its own, and the wake
goes to another.
-/

namespace PicoToolkit

open Transition Interleaving

def Initialised {cores : Nat} (flag : Word) (machine : Machine cores FunctionRuns OncePlace) : Prop :=
  machine.kernel.memory flag = 2 ∧
    ∀ call ∈ machine.calls, ¬call.place.claims ∧ ∀ futex, call.place ≠ .wake futex

def StrandsNobody {cores : Nat} (flag : Word) (machine : Machine cores FunctionRuns OncePlace) :
    Prop :=
  Initialised flag machine → ∀ task, machine.inside (onceProgram flag) task →
    ∀ futex, task ∉ machine.kernel.queue (.waiters futex)

def FindsOther {cores : Nat} (machine : Machine cores FunctionRuns OncePlace) :
    Label cores OnceCall → Prop
  | .act _ index =>
      match machine.calls[index]? with
      | some ⟨_, .wait futex expected, false⟩ =>
          machine.kernel.futexValue futex ≠ expected ∧
            machine.kernel.futexValue futex ≠ waitValue (machine.kernel.futex futex) expected
      | _ => True
  | _ => True

instance {cores : Nat} (machine : Machine cores FunctionRuns OncePlace) (label : Label cores OnceCall) :
    Decidable (FindsOther machine label) := by
  unfold FindsOther
  split
  · split
    · exact inferInstance
    · exact inferInstance
  · exact inferInstance

section

variable {cores : Nat} [NeZero cores] {flag : Word}
  {machine : Machine cores FunctionRuns OncePlace}

theorem wait_of_onceOp {place : OncePlace} {futex expected ticks : Word} {resume : Result → OncePlace}
    (isNext : onceOp flag place = some (.service (.wait futex expected ticks) resume)) :
    place = .wait futex expected := by
  cases place with
  | wait => cases isNext; rfl
  | _ => cases isNext

theorem awake_of_guarded (reached : (onceSystem cores flag).Guarded FindsOther machine) :
    machine.Sound (fun address => decide (address ∈ [flag])) ∧ machine.Owns ∧
      ∀ task, machine.inside (onceProgram flag) task →
        ∀ futex, ¬machine.kernel.view.Waits task futex := by
  induction reached with
  | start begins =>
      refine ⟨⟨begins.kernel, begins.untracked⟩, begins.owns, ?_⟩
      intro task inside
      rw [Machine.inside, begins.callOf] at inside
      cases inside
  | @step machine label next before meets moved ih =>
      have moved : Machine.step (onceProgram flag) (fun address => decide (address ∈ [flag])) machine
        label = some next := moved
      obtain ⟨sound, owns, awake⟩ := ih
      refine ⟨(Machine.step_shared (confined_onceProgram flag) sound moved).1, owns.step moved, ?_⟩
      intro task inside futex waits
      rcases Machine.waits_of_step owns sound.reached moved inside waits with ⟨same, old⟩ |
          ⟨core, index, call, expected, ticks, resume, rfl, found, _, begins, _, isNext, _, matched⟩
      · exact awake task (Machine.inside_of_callOf same inside) futex old
      · have place := wait_of_onceOp isNext
        have finds : machine.calls[index]? = some ⟨call.owner, .wait futex expected, false⟩ := by
          rw [found, ← place, ← begins]
        simp only [FindsOther, finds] at meets
        rcases matched with same | same
        · exact meets.1 same
        · exact meets.2 same

/-- As long as no wait of a call finds the value that it expects, nobody is blocked in a call once the
flag is set and the initialising task has left. -/
theorem strandsNobody_of_guarded (reached : (onceSystem cores flag).Guarded FindsOther machine) :
    StrandsNobody flag machine := by
  obtain ⟨_, _, awake⟩ := awake_of_guarded reached
  intro _ task inside futex isQueued
  exact awake task inside futex isQueued

theorem strandsNobody_of_guarded_late :
    ∃ machine : Machine 1 FunctionRuns OncePlace,
      machine.calls.map Call.place = [.done, .done] ∧ Initialised 0x104 machine ∧
        StrandsNobody 0x104 machine := by
  obtain ⟨machine, reached, late, two⟩ := exists_machine (onceProgram 0x104) FindsOther [0x104]
    (fun _ => 0) {} twoRunners losingRun
    (fun machine => machine.calls.map Call.place = [.done, .done] ∧ machine.kernel.memory 0x104 = 2)
    (by decide +kernel)
  refine ⟨machine, late, ⟨two, ?_⟩, strandsNobody_of_guarded reached⟩
  intro call member
  have isDone : call.place ∈ [OncePlace.done, .done] := late ▸ List.mem_map_of_mem member
  simp only [List.mem_cons, List.not_mem_nil, or_false, or_self] at isDone
  rw [isDone]
  exact ⟨Bool.false_ne_true, fun _ same => by cases same⟩

/-- A caller that comes while the function runs waits on a futex of its own; the initialising task
wakes another, and leaves. -/
theorem not_strandsNobody :
    ¬∀ machine : Machine 1 FunctionRuns OncePlace,
      (onceSystem 1 0x104).Reachable machine → StrandsNobody 0x104 machine := by
  intro never
  obtain ⟨machine, reached, places, two, inside, isQueued⟩ := exists_machine (onceProgram 0x104)
    (fun _ _ => True) [0x104] (fun _ => 0) {}
    ([.create 0 0x1000 { flags := schedulerPrimordialTask, priority := 32 },
      .create 0 0x2000 { priority := 31 }, .create 0 0x3000 { priority := 31 }, .start 0] ++ switchPass)
    (List.flatten [[.call 0 (.callOnce 0x100)], List.replicate 4 (.act 0 0),
      (.yield 0 :: switchPass).map .kernel, [.call 0 (.callOnce 0x200)], List.replicate 5 (.act 0 1),
      switchPass.map .kernel, List.replicate 3 (.act 0 0)])
    (fun machine => machine.calls.map Call.place = [.done, .wait 0x200 1] ∧
      machine.kernel.memory 0x104 = 2 ∧ machine.inside (onceProgram 0x104) 0x3000 ∧
      0x3000 ∈ machine.kernel.queue (.waiters 0x200)) (by decide)
  refine never machine reached.reachable ⟨two, fun call member => ?_⟩ 0x3000 inside 0x200 isQueued
  have isPlace : call.place ∈ [OncePlace.done, .wait 0x200 1] := places ▸ List.mem_map_of_mem member
  simp only [List.mem_cons, List.not_mem_nil, or_false] at isPlace
  rcases isPlace with isDone | waits
  · rw [isDone]
    exact ⟨Bool.false_ne_true, fun _ same => by cases same⟩
  · rw [waits]
    exact ⟨Bool.false_ne_true, fun _ same => by cases same⟩

end

end PicoToolkit
