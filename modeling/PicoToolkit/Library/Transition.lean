import Mathlib.Data.List.Basic

/-!
Labelled transition systems with a partial step function.  A guard narrows the runs to those whose
every step meets a condition on the state before it; an invariant is proved once for the initial
states and once for a step.
-/

namespace Transition

structure System (State Action : Type) where
  initial : State → Prop
  step : State → Action → Option State

variable {State Action : Type}

namespace System

inductive Guarded (system : System State Action) (guard : State → Action → Prop) : State → Prop
  | start {state} : system.initial state → Guarded system guard state
  | step {state action next} : Guarded system guard state → guard state action →
      system.step state action = some next → Guarded system guard next

def Reachable (system : System State Action) : State → Prop :=
  system.Guarded fun _ _ => True

inductive Leads (system : System State Action) (guard : State → Action → Prop) (origin : State) :
    State → Prop
  | refl : Leads system guard origin origin
  | step {state action next} : Leads system guard origin state → guard state action →
      system.step state action = some next → Leads system guard origin next

def run (system : System State Action) (guard : State → Action → Prop)
    [∀ state action, Decidable (guard state action)] (state : State) : List Action → Option State
  | [] => some state
  | action :: rest =>
      if guard state action then
        (system.step state action).bind fun next => system.run guard next rest
      else none

variable {system : System State Action} {guard : State → Action → Prop}

theorem Guarded.mono {weaker : State → Action → Prop} {state : State}
    (reached : system.Guarded guard state)
    (weaken : ∀ state action, guard state action → weaker state action) :
    system.Guarded weaker state := by
  induction reached with
  | start begins => exact .start begins
  | step _ allowed moved ih => exact .step ih (weaken _ _ allowed) moved

theorem Guarded.reachable {state : State} (reached : system.Guarded guard state) :
    system.Reachable state :=
  reached.mono fun _ _ _ => trivial

theorem Reachable.step {state next : State} {action : Action} (reached : system.Reachable state)
    (moved : system.step state action = some next) : system.Reachable next :=
  Guarded.step reached trivial moved

theorem Guarded.invariant {motive : State → Prop} {state : State}
    (reached : system.Guarded guard state)
    (initially : ∀ state, system.initial state → motive state)
    (preserved : ∀ state action next, motive state → guard state action →
      system.step state action = some next → motive next) : motive state := by
  induction reached with
  | start begins => exact initially _ begins
  | step _ allowed moved ih => exact preserved _ _ _ ih allowed moved

theorem Reachable.invariant {motive : State → Prop} {state : State}
    (reached : system.Reachable state)
    (initially : ∀ state, system.initial state → motive state)
    (preserved : ∀ state action next, motive state →
      system.step state action = some next → motive next) : motive state :=
  Guarded.invariant reached initially fun state action next holds _ =>
    preserved state action next holds

theorem Leads.invariant {motive : State → Prop} {origin state : State}
    (leads : system.Leads guard origin state) (initially : motive origin)
    (preserved : ∀ state action next, motive state → guard state action →
      system.step state action = some next → motive next) : motive state := by
  induction leads with
  | refl => exact initially
  | step _ allowed moved ih => exact preserved _ _ _ ih allowed moved

def record {History : Type} (system : System State Action) (start : History)
    (update : State → Action → State → History → History) : System (State × History) Action where
  initial recorded := system.initial recorded.1 ∧ recorded.2 = start
  step recorded action := (system.step recorded.1 action).map fun next =>
    (next, update recorded.1 action next recorded.2)

def beside {Other : Type} (system : System State Action) (other : System Other Action)
    (link : State → Other → Prop) : System (State × Other) Action where
  initial pair := system.initial pair.1 ∧ other.initial pair.2 ∧ link pair.1 pair.2
  step pair action := (system.step pair.1 action).bind fun next =>
    (other.step pair.2 action).map fun otherNext => (next, otherNext)

section Beside

variable {Other : Type} {other : System Other Action} {link : State → Other → Prop}

theorem beside_step {pair next : State × Other} {action : Action}
    (moved : (system.beside other link).step pair action = some next) :
    system.step pair.1 action = some next.1 ∧ other.step pair.2 action = some next.2 := by
  obtain ⟨first, left, rest⟩ := Option.bind_eq_some_iff.mp moved
  obtain ⟨second, right, rfl⟩ := Option.map_eq_some_iff.mp rest
  exact ⟨left, right⟩

theorem Reachable.of_beside {pair : State × Other}
    (reached : (system.beside other link).Reachable pair) :
    system.Reachable pair.1 ∧ other.Reachable pair.2 := by
  refine reached.invariant (motive := fun pair => system.Reachable pair.1 ∧ other.Reachable pair.2)
    (fun pair begins => ⟨.start begins.1, .start begins.2.1⟩) ?_
  rintro pair action next ⟨left, right⟩ moved
  obtain ⟨first, second⟩ := beside_step moved
  exact ⟨left.step first, right.step second⟩

theorem Reachable.exists_beside {related : State → Other → Prop}
    (initially : ∀ state, system.initial state →
      ∃ partner, other.initial partner ∧ link state partner ∧ related state partner)
    (follows : ∀ state partner action next, system.Reachable state → related state partner →
      system.step state action = some next →
        ∃ partnerNext, other.step partner action = some partnerNext ∧ related next partnerNext)
    {state : State} (reached : system.Reachable state) :
    ∃ partner, (system.beside other link).Reachable (state, partner) ∧ related state partner := by
  induction reached with
  | start begins =>
      obtain ⟨partner, starts, linked, first⟩ := initially _ begins
      exact ⟨partner, .start ⟨begins, starts, linked⟩, first⟩
  | @step state action next before _ moved ih =>
      obtain ⟨partner, together, holds⟩ := ih
      obtain ⟨partnerNext, follow, later⟩ := follows state partner action next before holds moved
      have moves : (system.beside other link).step (state, partner) action = some (next, partnerNext) :=
        Option.bind_eq_some_iff.mpr ⟨next, moved, Option.map_eq_some_iff.mpr ⟨_, follow, rfl⟩⟩
      exact ⟨partnerNext, together.step moves, later⟩

end Beside

theorem run_guarded [∀ state action, Decidable (guard state action)] {origin final : State}
    {actions : List Action} (reached : system.Guarded guard origin)
    (performed : system.run guard origin actions = some final) : system.Guarded guard final := by
  induction actions generalizing origin with
  | nil =>
      obtain rfl : origin = final := by simpa [run] using performed
      exact reached
  | cons action rest ih =>
      simp only [run, Option.ite_none_right_eq_some] at performed
      obtain ⟨allowed, performed⟩ := performed
      obtain ⟨next, moved, performed⟩ := Option.bind_eq_some_iff.mp performed
      exact ih (.step reached allowed moved) performed

theorem run_leads [∀ state action, Decidable (guard state action)] {origin middle final : State}
    {actions : List Action} (leads : system.Leads guard origin middle)
    (performed : system.run guard middle actions = some final) :
    system.Leads guard origin final := by
  induction actions generalizing middle with
  | nil =>
      obtain rfl : middle = final := by simpa [run] using performed
      exact leads
  | cons action rest ih =>
      simp only [run, Option.ite_none_right_eq_some] at performed
      obtain ⟨allowed, performed⟩ := performed
      obtain ⟨next, moved, performed⟩ := Option.bind_eq_some_iff.mp performed
      exact ih (.step leads allowed moved) performed

theorem exists_of_run (guard : State → Action → Prop)
    [∀ state action, Decidable (guard state action)] {origin : State}
    (begins : system.initial origin) (actions : List Action) (check : State → Prop)
    [DecidablePred check]
    (found : (system.run guard origin actions).any fun final => decide (check final)) :
    ∃ final, system.Guarded guard final ∧ check final := by
  obtain ⟨final, performed, checked⟩ := (Option.any_eq_true _ _).mp found
  exact ⟨final, run_guarded (.start begins) performed, of_decide_eq_true checked⟩

end System

structure Simulation {Concrete Abstract : Type} (concrete : System Concrete Action)
    (abstract : System Abstract Action) (Wellformed : Concrete → Prop)
    (abstraction : Concrete → Abstract) : Prop where
  initial : ∀ state, concrete.initial state →
    Wellformed state ∧ abstract.initial (abstraction state)
  step : ∀ state action next, Wellformed state → abstract.Reachable (abstraction state) →
    concrete.step state action = some next →
      Wellformed next ∧ abstract.step (abstraction state) action = some (abstraction next)

theorem Simulation.reachable {Concrete Abstract : Type} {concrete : System Concrete Action}
    {abstract : System Abstract Action} {Wellformed : Concrete → Prop}
    {abstraction : Concrete → Abstract}
    (simulation : Simulation concrete abstract Wellformed abstraction) {state : Concrete}
    (reached : concrete.Reachable state) :
    Wellformed state ∧ abstract.Reachable (abstraction state) := by
  refine reached.invariant (motive := fun state =>
    Wellformed state ∧ abstract.Reachable (abstraction state)) ?_ ?_
  · intro state begins
    obtain ⟨wellformed, abstractly⟩ := simulation.initial state begins
    exact ⟨wellformed, .start abstractly⟩
  · rintro state action next ⟨wellformed, abstractly⟩ moved
    obtain ⟨preserved, follows⟩ := simulation.step state action next wellformed abstractly moved
    exact ⟨preserved, abstractly.step follows⟩

section Outputs

variable {Other Input Output : Type} {step : State → Input → Option (Output × State)}
  {following : Other → Input → Option (Output × Other)}

/-- What a machine puts out for some inputs and where it ends, if all of them are possible. -/
def outputs (step : State → Input → Option (Output × State)) (state : State) :
    List Input → Option (List Output × State)
  | [] => some ([], state)
  | input :: rest =>
      (step state input).bind fun (output, next) =>
        (outputs step next rest).map fun (others, final) => (output :: others, final)

/-- Machines in related states have the same outputs, and end in related states, if each input keeps
it so. -/
theorem outputs_rel {related : State → Other → Prop}
    (follows : ∀ state other input, related state other →
      Option.Rel (fun left right => left.1 = right.1 ∧ related left.2 right.2)
        (step state input) (following other input))
    {inputs : List Input} {state : State} {other : Other} (begins : related state other) :
    Option.Rel (fun left right => left.1 = right.1 ∧ related left.2 right.2)
      (outputs step state inputs) (outputs following other inputs) := by
  induction inputs generalizing state other with
  | nil => exact .some ⟨rfl, begins⟩
  | cons input rest ih =>
      have first := follows state other input begins
      simp only [outputs]
      cases moved : step state input with
      | none =>
          cases movedOther : following other input with
          | none => exact .none
          | some right =>
              rw [moved, movedOther] at first
              cases first
      | some left =>
          cases movedOther : following other input with
          | none =>
              rw [moved, movedOther] at first
              cases first
          | some right =>
              rw [moved, movedOther] at first
              obtain ⟨same, next⟩ : left.1 = right.1 ∧ related left.2 right.2 := by
                cases first with
                | some holds => exact holds
              have later := ih next
              simp only [Option.bind_some]
              cases ends : outputs step left.2 rest with
              | none =>
                  cases endsOther : outputs following right.2 rest with
                  | none => exact .none
                  | some _ =>
                      rw [ends, endsOther] at later
                      cases later
              | some _ =>
                  cases endsOther : outputs following right.2 rest with
                  | none =>
                      rw [ends, endsOther] at later
                      cases later
                  | some _ =>
                      rw [ends, endsOther] at later
                      cases later with
                      | some holds => exact .some ⟨by simp [same, holds.1], holds.2⟩

end Outputs

end Transition
