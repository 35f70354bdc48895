import PicoToolkit.Retarget.Exclusion

/-!
Ownership of the lock of the C library: the number of the core is part of what the lock knows of its
owner, so that it follows the task only as long as the task makes its calls on one core.
-/

namespace PicoToolkit.Retarget

open Transition

def LockPlace.contends : LockPlace → Bool
  | .clear _ _ | .exchange _ _ | .relax _ | .wait _ | .blocked => true
  | _ => false

def LockPlace.counts : LockPlace → Bool
  | .again | .countAgain _ | .countDown | .uncount _ => true
  | _ => false

structure FollowsTask (state : LockState) : Prop where
  nested : ∀ task, 0 < (state.task task).depth → (state.task task).place.contends = false
  accepted : ∀ task, (state.task task).place = .aborted → (state.task task).depth = 0
  owner : ∀ task, (state.task task).place.counts → 0 < (state.task task).depth
  refused : ∀ task value, (state.task task).place = .release value → (state.task task).depth = 0 →
    state.lock.value ≠ value
  alone : ∀ first second, 0 < (state.task first).depth → 0 < (state.task second).depth →
    first = second

section

variable {state : LockState}

theorem LockSound.followsTask (sound : LockSound state) : FollowsTask state := by
  constructor
  · intro task holds
    obtain ⟨place, isAt⟩ : ∃ place, (state.task task).place = place := ⟨_, rfl⟩
    have ok := sound.own isAt
    rw [isAt]
    cases place with
    | clear _ _ | exchange _ _ | relax _ | wait _ => exact absurd holds (Nat.not_lt.mpr ok.1.le)
    | blocked => exact absurd holds (Nat.not_lt.mpr (Nat.le_of_eq ok))
    | _ => rfl
  · exact fun _ aborted => sound.own aborted
  · intro task counts
    obtain ⟨place, isAt⟩ : ∃ place, (state.task task).place = place := ⟨_, rfl⟩
    have ok := sound.own isAt
    rw [isAt] at counts
    cases place with
    | again | countAgain _ | countDown | uncount _ => exact ok.1
    | _ => exact absurd counts Bool.false_ne_true
  · intro task value isAt depth owned
    obtain ⟨⟨core, isValue⟩, _⟩ := sound.own isAt
    have holds : 0 < (state.task task).depth := sound.depth_of_lockValue (owned.trans isValue)
    exact absurd depth holds.ne'
  · exact fun _ _ => sound.eq_of_depth

/-- Ownership follows a task that calls the functions on the core on which it has acquired the lock. -/
theorem ownership_follows_task
    (reached : retargetSystem.Guarded
      (fun state action => OnOwnCore state action ∧ ReadsOwn state action) state) :
    FollowsTask state := by
  have sound : LockSound state := by
    refine reached.invariant (fun state => lockSound_of_initial) ?_
    rintro state action next sound ⟨onOwn, reads⟩ moved
    exact sound.step reads onOwn moved
  exact sound.followsTask

theorem ownership_follows_task_run : ∃ state, FollowsTask state ∧
    (state.task firstTask).depth = 2 := by
  obtain ⟨state, reached, check⟩ := @System.exists_of_run _ _ retargetSystem
    (fun state action => OnOwnCore state action ∧ ReadsOwn state action) _ {}
    ⟨rfl, rfl, fun _ => ⟨rfl, rfl⟩⟩
    (List.flatten [[.call firstTask .acquire], List.replicate 5 (.act firstTask firstTask),
      [.migrate firstTask 1, .migrate firstTask 0, .call firstTask .acquire],
      List.replicate 4 (.act firstTask firstTask)])
    (fun state => (state.task firstTask).depth = 2) (fun _ => inferInstanceAs (Decidable (_ = _)))
    (by decide)
  exact ⟨state, ownership_follows_task reached, check⟩

theorem not_followsTask : ¬ (∀ state, retargetSystem.Guarded ReadsOwn state → FollowsTask state) := by
  intro always
  obtain ⟨state, reached, aborted, depth⟩ := @System.exists_of_run _ _ retargetSystem ReadsOwn _ {}
    ⟨rfl, rfl, fun _ => ⟨rfl, rfl⟩⟩
    (List.flatten [[.call firstTask .acquire], List.replicate 5 (.act firstTask firstTask),
      [.migrate firstTask 1, .call firstTask .release], List.replicate 3 (.act firstTask firstTask)])
    (fun state => (state.task firstTask).place = .aborted ∧ (state.task firstTask).depth = 1)
    (fun _ => inferInstanceAs (Decidable (_ ∧ _))) (by decide)
  exact absurd ((always state reached).accepted firstTask aborted) (by rw [depth]; decide)

end

end PicoToolkit.Retarget
