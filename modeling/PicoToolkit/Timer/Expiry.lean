import PicoToolkit.Timer.View

/-!
When the timer of a sleeping or waiting task is taken off the list as expired.
-/

namespace PicoToolkit

open Ring Transition

structure TimedCall where
  since : Word := 0
  delay : Word := 0

section

variable {R : Type → Type → Type} [Store R] {cores : Nat} [NeZero cores]

def callsAfter (state : State R cores) (action : Action cores) (_ : State R cores)
    (calls : Word → TimedCall) : Word → TimedCall :=
  match armed state action with
  | none => calls
  | some (task, delay) => Function.update calls task ⟨schedulerGetTicks state, delay⟩

end

def timedCalls (cores : Nat) [NeZero cores] :
    System (State Links cores × (Word → TimedCall)) (Action cores) :=
  (scheduler cores).record (fun _ => {}) callsAfter

def TimedCall.Due (call : TimedCall) (now : Word) : Prop := call.delay ≤ now - call.since

/-- The tick counter reaches the end of the delay without wrapping around, or has wrapped by now. -/
def TimedCall.Sound (call : TimedCall) (now : Word) : Prop :=
  call.since.toNat + call.delay.toNat < 2 ^ 32 ∨ now < call.since

theorem TimedCall.due_iff_sound {call : TimedCall} {now : Word}
    (expired : call.since + call.delay ≤ now) : call.Due now ↔ call.Sound now := by
  have since := call.since.isLt
  have delay := call.delay.isLt
  have present := now.isLt
  have order := BitVec.le_def.mp expired
  rw [BitVec.toNat_add] at order
  rw [Due, Sound, BitVec.le_def, BitVec.lt_def, BitVec.toNat_sub]
  omega

variable {cores : Nat} [NeZero cores]

omit [NeZero cores] in
theorem armed_plain (state : State Links cores) (action : Action cores) :
    armed state.plain action = armed state action := by
  cases action with
  | _ => rfl

theorem expires_of_timedCalls {recorded : State Links cores × (Word → TimedCall)}
    (reached : (timedCalls cores).Reachable recorded) :
    (scheduler cores).Reachable recorded.1 ∧
      ∀ task ∈ recorded.1.timerList, (recorded.1.task task).timerExpires =
        (recorded.2 task).since + (recorded.2 task).delay := by
  refine reached.invariant (motive := fun recorded => (scheduler cores).Reachable recorded.1 ∧
    ∀ task ∈ recorded.1.timerList, (recorded.1.task task).timerExpires =
      (recorded.2 task).since + (recorded.2 task).delay) ?_ ?_
  · rintro ⟨state, calls⟩ ⟨begins, rfl⟩
    refine ⟨.start begins, fun task timed => ?_⟩
    obtain ⟨memory, sliceDuration, rfl⟩ := begins
    have empty : schedListEntries (Links.empty : Links Unit Word) () = [] :=
      congrFun (entries_eq Links.empty_represents) ()
    change task ∈ schedListEntries (Links.empty : Links Unit Word) () at timed
    rw [empty] at timed
    cases timed
  · rintro ⟨state, calls⟩ action ⟨next, later⟩ ⟨before, expires⟩ moved
    obtain ⟨after, first, same⟩ := Option.map_eq_some_iff.mp moved
    obtain ⟨rfl, rfl⟩ := Prod.mk.inj same
    refine ⟨before.step first, ?_⟩
    obtain ⟨follows, abstractly⟩ := (scheduler_simulation cores).reachable before
    have follow := ((scheduler_simulation cores).step _ _ _ follows abstractly first).2
    have stepped := timer_step (placed_of_reachable abstractly) follow
    rw [armed_plain] at stepped
    intro task timed
    change (after.task task).timerExpires = (callsAfter state action after calls task).since +
      (callsAfter state action after calls task).delay
    simp only [callsAfter]
    split at stepped
    · rename_i unarmed
      rw [unarmed]
      exact (stepped.expires task timed).trans (expires task (stepped.entries.subset timed))
    · rename_i sleeper delay isArmed
      rw [isArmed]
      have expiry : (after.task task).timerExpires =
          (state.plain.timerView.push sleeper delay).expires task := by
        rw [← stepped.2]
        rfl
      rw [expiry]
      simp only [TimerView.push, TimerView.refresh]
      by_cases isSleeper : task = sleeper
      · subst isSleeper
        rw [Function.update_self, Function.update_self]
        rfl
      · rw [Function.update_of_ne isSleeper, Function.update_of_ne isSleeper]
        refine expires task ?_
        have member : task ∈ (state.plain.timerView.push sleeper delay).entries := by
          rw [← stepped.2]
          exact timed
        simp only [TimerView.push, TimerView.insert, TimerView.refresh] at member
        rcases mem_insertEntry.mp member with same | old
        · exact (isSleeper same).elim
        · exact (List.mem_filter.mp old).1

end PicoToolkit
