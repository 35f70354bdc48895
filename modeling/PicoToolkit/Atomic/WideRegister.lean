import PicoToolkit.Atomic.Operations

/-!
The functions for 8 bytes as the operations of a register of 64 bits.
-/

namespace PicoToolkit.Atomic

inductive RegisterCall where
  | store (val : BitVec 64)
  | load
  | update (operation : Operation (BitVec 64))
  deriving DecidableEq

namespace RegisterCall

def body : RegisterCall → Body (BitVec 64)
  | .store val => atomicStore8 val
  | .load => atomicLoad8
  | .update operation => operation.body .eight

def effect (value : BitVec 64) : RegisterCall → Outcome (BitVec 64) × BitVec 64
  | .store val => (.nothing, val)
  | .load => (.returned value, value)
  | .update operation => operation.effect value

def perform (value : BitVec 64) (call : RegisterCall) : Outcome (BitVec 64) × BitVec 64 :=
  call.body.run value

end RegisterCall

section

variable (step : BitVec 64 → RegisterCall → Outcome (BitVec 64) × BitVec 64)

def observed (value : BitVec 64) : List RegisterCall → List (Outcome (BitVec 64) × BitVec 64)
  | [] => []
  | call :: rest => step value call :: observed (step value call).2 rest

def valueAfter (value : BitVec 64) (calls : List RegisterCall) : BitVec 64 :=
  calls.foldl (fun value call => (step value call).2) value

end

/-- Each call returns and leaves what the register does, and a compare-exchange with a value just read
succeeds. -/
structure BehavesAsRegister (value : BitVec 64) (calls : List RegisterCall) : Prop where
  outcomes : observed RegisterCall.perform value calls = observed RegisterCall.effect value calls
  succeeds : ∀ before after expected desired, calls = before ++ .load :: after →
    (atomicLoad8.run (valueAfter RegisterCall.perform value before)).1 = .returned expected →
      ((atomicCompareExchange8 expected desired).run
        (valueAfter RegisterCall.perform value before)).1 = .compared true expected

def LoadsNarrow (value : BitVec 64) (calls : List RegisterCall) : Prop :=
  ∀ before after, calls = before ++ .load :: after →
    (valueAfter RegisterCall.effect value before).toNat < 2 ^ 32

variable {value : BitVec 64} {calls : List RegisterCall}

theorem atomicLoad8_run (value : BitVec 64) :
    atomicLoad8.run value = (.returned ((value.setWidth 32).setWidth 64), value) := rfl

theorem setWidth_setWidth_eq_iff (value : BitVec 64) :
    (value.setWidth 32).setWidth 64 = value ↔ value.toNat < 2 ^ 32 := by
  rw [← BitVec.toNat_inj, BitVec.toNat_setWidth, BitVec.toNat_setWidth]
  have below := value.isLt
  omega

theorem perform_eq_effect (value : BitVec 64) (call : RegisterCall)
    (narrow : call = .load → value.toNat < 2 ^ 32) : call.perform value = call.effect value := by
  cases call with
  | store val => rfl
  | load =>
      have same := (setWidth_setWidth_eq_iff value).mpr (narrow rfl)
      rw [RegisterCall.perform, RegisterCall.body, atomicLoad8_run, same, RegisterCall.effect]
  | update operation => exact operation.body_run .eight value

theorem perform_snd (value : BitVec 64) (call : RegisterCall) :
    (call.perform value).2 = (call.effect value).2 := by
  cases call with
  | store val => rfl
  | load => rfl
  | update operation => exact congrArg Prod.snd (operation.body_run .eight value)

theorem valueAfter_perform (value : BitVec 64) (calls : List RegisterCall) :
    valueAfter RegisterCall.perform value calls = valueAfter RegisterCall.effect value calls := by
  simp only [valueAfter, perform_snd]

theorem LoadsNarrow.tail {call : RegisterCall} (narrow : LoadsNarrow value (call :: calls)) :
    LoadsNarrow (call.effect value).2 calls := by
  intro before after split
  exact narrow (call :: before) after (by rw [split, List.cons_append])

theorem loadsNarrow_cons {call : RegisterCall} (first : call = .load → value.toNat < 2 ^ 32)
    (rest : LoadsNarrow (call.effect value).2 calls) : LoadsNarrow value (call :: calls) := by
  intro before after split
  cases before with
  | nil => exact first (List.cons.inj split).1
  | cons other before =>
      obtain ⟨rfl, inside⟩ := List.cons.inj split
      exact rest before after inside

theorem observed_eq_iff :
    observed RegisterCall.perform value calls = observed RegisterCall.effect value calls ↔
      LoadsNarrow value calls := by
  induction calls generalizing value with
  | nil =>
      constructor
      · intro _ before after split
        simp at split
      · intro _
        rfl
  | cons call rest ih =>
      simp only [observed, List.cons.injEq, perform_snd, ih]
      constructor
      · rintro ⟨first, narrow⟩
        refine loadsNarrow_cons ?_ narrow
        rintro rfl
        have same := congrArg Prod.fst first
        rw [RegisterCall.perform, RegisterCall.body, atomicLoad8_run, RegisterCall.effect] at same
        exact (setWidth_setWidth_eq_iff value).mp (Outcome.returned.inj same)
      · intro narrow
        refine ⟨perform_eq_effect value call ?_, narrow.tail⟩
        rintro rfl
        exact narrow [] rest rfl

theorem atomicCompareExchange8_succeeds {expected desired : BitVec 64}
    (narrow : value.toNat < 2 ^ 32) (loaded : (atomicLoad8.run value).1 = .returned expected) :
    ((atomicCompareExchange8 expected desired).run value).1 = .compared true expected := by
  rw [atomicLoad8_run, (setWidth_setWidth_eq_iff value).mpr narrow] at loaded
  obtain rfl := Outcome.returned.inj loaded
  rw [atomicCompareExchange8, atomicCompareExchange_run, if_pos rfl]

/-- The functions for 8 bytes behave as a register exactly if no value with a non-zero upper half is
loaded. -/
theorem behavesAsRegister_iff (value : BitVec 64) (calls : List RegisterCall) :
    BehavesAsRegister value calls ↔ LoadsNarrow value calls := by
  constructor
  · rintro ⟨outcomes, _⟩
    exact observed_eq_iff.mp outcomes
  · intro narrow
    refine ⟨observed_eq_iff.mpr narrow, ?_⟩
    intro before after expected desired split loaded
    rw [valueAfter_perform] at loaded ⊢
    exact atomicCompareExchange8_succeeds (narrow before after split) loaded

theorem not_behavesAsRegister :
    ¬ ∀ (value : BitVec 64) (calls : List RegisterCall), BehavesAsRegister value calls := by
  intro always
  have outcomes := (always 0x100000000 [.load]).outcomes
  revert outcomes
  decide

end PicoToolkit.Atomic
