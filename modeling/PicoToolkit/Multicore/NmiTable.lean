import PicoToolkit.Multicore.Delivery

/-!
The interrupts of a core that are routed to the NMI over runs of `nmi_set_enable`: what the handler of the
NMI calls.
-/

namespace PicoToolkit.Multicore

open Transition

def nmiHandler : List Word → Option (List Word)
  | [] => none
  | current :: rest => if current = 0 then some [] else (nmiHandler rest).map (current :: ·)

theorem nmiHandler_append {handlers rest : List Word} (nonzero : 0 ∉ handlers) :
    nmiHandler (handlers ++ 0 :: rest) = some handlers := by
  induction handlers with
  | nil => rw [List.nil_append, nmiHandler, if_pos rfl]
  | cons current handlers ih =>
      have apart : current ≠ 0 := fun same => nonzero (by simp [same])
      rw [List.cons_append, nmiHandler, if_neg apart, ih fun later => nonzero (List.mem_cons_of_mem _ later),
        Option.map_some]

structure NmiState where
  core : Core
  vectors : Core.Vectors

inductive NmiAction where
  | setEnable (num : Nat) (enabled : Bool)
  | setVector (num : Irq) (handler : Word)

/-- The assertion of `nmi_set_enable` refuses the numbers that are no interrupts. -/
def nmiSystem : System NmiState NmiAction where
  initial state :=
    state.core.activeHandlers = List.replicate (numIrqs + 1) 0 ∧ state.core.nmiProcMask = 0
  step state
    | .setEnable num enabled =>
        if inside : num < numIrqs then
          some { state with core := state.core.nmiSetEnable state.vectors ⟨num, inside⟩ enabled }
        else none
    | .setVector num handler =>
        some { state with vectors := Function.update state.vectors num handler }

def KeepsHandlers (state : NmiState) : NmiAction → Prop
  | .setEnable num enabled =>
      ∀ inside : num < numIrqs, enabled = true → state.vectors ⟨num, inside⟩ ≠ 0
  | .setVector num _ => state.core.nmiIsEnabled num = false

instance (state : NmiState) (action : NmiAction) : Decidable (KeepsHandlers state action) := by
  cases action <;> unfold KeepsHandlers <;> infer_instance

structure NmiState.Valid (state : NmiState) : Prop where
  tabled : state.core.Tabled state.vectors
  nonzero : ∀ num, state.core.nmiIsEnabled num = true → state.vectors num ≠ 0

theorem valid_setEnable {state : NmiState} (valid : state.Valid) {num : Irq} {enabled : Bool}
    (handled : enabled = true → state.vectors num ≠ 0) :
    NmiState.Valid { state with core := state.core.nmiSetEnable state.vectors num enabled } := by
  obtain ⟨table, mask, written, tabled, bits⟩ := Core.nmiSetEnable_spec valid.tabled num enabled
  rw [written]
  refine ⟨tabled, fun other routed => ?_⟩
  rw [Core.withNmi_nmiIsEnabled, bits other] at routed
  by_cases same : other = num
  · subst same
    rw [if_pos rfl] at routed
    exact handled routed
  · rw [if_neg same] at routed
    exact valid.nonzero other routed

theorem valid_setVector {state : NmiState} (valid : state.Valid) {num : Irq} (handler : Word)
    (clear : state.core.nmiIsEnabled num = false) :
    NmiState.Valid { state with vectors := Function.update state.vectors num handler } := by
  have kept : ∀ other, state.core.nmiIsEnabled other = true →
      Function.update state.vectors num handler other = state.vectors other := by
    intro other routed
    refine Function.update_of_ne (fun same => ?_) _ _
    rw [same, clear] at routed
    cases routed
  refine ⟨?_, fun other routed => ?_⟩
  · have handlers : state.core.routed.map (Function.update state.vectors num handler) =
        state.core.routed.map state.vectors :=
      List.map_congr_left fun other member => kept other (Core.mem_routed.mp member)
    rw [Core.Tabled, handlers]
    exact valid.tabled
  · have same : Function.update state.vectors num handler other = state.vectors other := kept other routed
    change Function.update state.vectors num handler other ≠ 0
    rw [same]
    exact valid.nonzero other routed

theorem valid_of_guarded {state : NmiState} (reached : nmiSystem.Guarded KeepsHandlers state) :
    state.Valid := by
  refine reached.invariant ?_ ?_
  · rintro state ⟨empty, clear⟩
    refine ⟨Core.tabled_of_empty empty clear, fun num routed => ?_⟩
    have off : state.core.nmiIsEnabled num = false := by
      rw [Core.nmiIsEnabled, clear]
      exact flagSet_zero_bit num
    rw [off] at routed
    cases routed
  · intro state action next valid allowed moved
    cases action with
    | setEnable num enabled =>
        simp only [nmiSystem, Option.dite_none_right_eq_some, Option.some_inj] at moved
        obtain ⟨inside, rfl⟩ := moved
        exact valid_setEnable valid (allowed inside)
    | setVector num handler =>
        obtain rfl := Option.some_inj.mp moved
        exact valid_setVector valid handler allowed

/-- The active handlers are compact and end inside of their table; they are the handlers of the enabled
interrupts, each as often as it is one, and the handler of the NMI calls them. -/
theorem nmiTable_dispatches {state : NmiState} (reached : nmiSystem.Guarded KeepsHandlers state) :
    ∃ handlers : List Word,
      0 ∉ handlers ∧ handlers.length ≤ numIrqs ∧
        state.core.activeHandlers = handlers ++ List.replicate (numIrqs + 1 - handlers.length) 0 ∧
        handlers.Perm (state.core.routed.map state.vectors) ∧
        nmiHandler state.core.activeHandlers = some handlers := by
  obtain ⟨⟨handlers, holds, table⟩, handled⟩ := valid_of_guarded reached
  obtain ⟨free, counted⟩ := Core.Tabled.counted holds
  have nonzero := Core.Tabled.nonzero holds
  have every : (state.core.routed.map state.vectors).filter (· ≠ 0) =
      state.core.routed.map state.vectors := by
    refine List.filter_eq_self.mpr fun handler member => ?_
    obtain ⟨num, routed, rfl⟩ := List.mem_map.mp member
    exact decide_eq_true (handled num (Core.mem_routed.mp routed))
  refine ⟨handlers, nonzero, by omega, table, by rwa [every] at holds, ?_⟩
  rw [table, counted, List.replicate_succ, nmiHandler_append nonzero]

theorem nmiTable_dispatches_run :
    ∃ state, nmiSystem.Guarded KeepsHandlers state ∧ state.core.nmiIsEnabled 24 = true ∧
      ∃ handlers : List Word, handlers.Perm (state.core.routed.map state.vectors) ∧
        nmiHandler state.core.activeHandlers = some handlers := by
  obtain ⟨state, reached, enabled⟩ := @System.exists_of_run _ _ nmiSystem KeepsHandlers _
    ⟨Core.untouched, Core.handler⟩ ⟨rfl, rfl⟩
    ([24, 26, 27, 28, 29, 30].map (.setEnable · true) ++ [30, 28, 29, 26, 27].map (.setEnable · false))
    (fun state => state.core.nmiIsEnabled 24 = true) (fun _ => inferInstance) (by decide)
  obtain ⟨handlers, _, _, _, every, calls⟩ := nmiTable_dispatches reached
  exact ⟨state, reached, enabled, handlers, every, calls⟩

end PicoToolkit.Multicore
