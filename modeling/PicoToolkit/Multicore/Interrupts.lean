import PicoToolkit.Scheduler.State
import PicoToolkit.Library.Transition

/-!
The interrupts of one core: the registers of the NVIC, the interrupts routed to the NMI with the table
of their handlers, and the cache that the commands keep.  An access outside an array of the source, or
a call that an assertion refuses, gives no state.
-/

namespace PicoToolkit.Multicore

abbrev numIrqs : Nat := 32

def uint8Max : BitVec 8 := 0xff

abbrev Irq : Type := Fin numIrqs

/-- The `IRQn_Type` of the source, whose negative values are the exceptions of the system: exception
`number` is the value `number - 16`. -/
inductive Irqn where
  | exception (number : Fin 16)
  | external (num : Irq)
  deriving DecidableEq

def nonMaskableIntIrqn : Fin 16 := 2
def pendSVIrqn : Fin 16 := 14
def sysTickIrqn : Fin 16 := 15

def bit (num : Irq) : Word := (1 : Word) <<< num.val

@[ext]
structure Core where
  nvicEnabled : Word
  nvicPending : Word
  nvicPriority : Irq → BitVec 8
  exceptionPending : Fin 16 → Bool
  nmiProcMask : Word
  activeHandlers : List Word
  irqEnabled : Irq → Bool
  irqPriority : Irq → BitVec 8

/-- A core whose interrupts have not been touched: nothing is enabled, and the statics of the source are
zero. -/
structure Core.Fresh (core : Core) : Prop where
  nvicEnabled : core.nvicEnabled = 0
  nmiProcMask : core.nmiProcMask = 0
  activeHandlers : core.activeHandlers = List.replicate (numIrqs + 1) 0
  irqEnabled : core.irqEnabled = fun _ => false
  irqPriority : core.irqPriority = fun _ => 0

def placeHandler (handler : Word) : Nat → List Word → Option (List Word)
  | remaining + 1, entry :: rest =>
      if entry = 0 then some (handler :: rest)
      else (placeHandler handler remaining rest).map fun placed => entry :: placed
  | _, _ => none

def removeHandler (handler : Word) : Nat → Bool → List Word → List Word
  | remaining + 1, found, entry :: following :: rest =>
      if entry = 0 then entry :: following :: rest
      else
        let found := found || decide (entry = handler)
        (if found then following else entry) ::
          removeHandler handler remaining found (following :: rest)
  | _, _, table => table

namespace Core

abbrev Vectors : Type := Irq → Word

variable (vectors : Vectors)

def nmiIsEnabled (core : Core) (num : Irq) : Bool := flagSet core.nmiProcMask (bit num)

def nmiSetEnable (core : Core) (num : Irq) (enabled : Bool) : Core :=
  if core.nmiIsEnabled num = enabled then core
  else if enabled then
    match placeHandler (vectors num) numIrqs core.activeHandlers with
    | some placed =>
        { core with activeHandlers := placed, nmiProcMask := core.nmiProcMask ||| bit num }
    | none => core
  else
    { core with
      activeHandlers := removeHandler (vectors num) numIrqs false core.activeHandlers
      nmiProcMask := core.nmiProcMask &&& ~~~bit num }

def irqClear (core : Core) (num : Irq) : Core :=
  { core with nvicPending := core.nvicPending &&& ~~~bit num }

def nvicIsEnabled (core : Core) (num : Irq) : Bool := flagSet core.nvicEnabled (bit num)

/-- `__real_irq_set_enabled`: the interrupt is written to the set-enable or clear-enable register. -/
def realIrqSetEnabled (core : Core) (num : Irq) (enabled : Bool) : Core :=
  { core with
    nvicEnabled :=
      if enabled then core.nvicEnabled ||| bit num else core.nvicEnabled &&& ~~~bit num }

def realIrqSetPending (core : Core) (num : Irq) : Core :=
  { core with nvicPending := core.nvicPending ||| bit num }

def nvicSetPriority (core : Core) (num : Irq) (priority : BitVec 8) : Core :=
  { core with nvicPriority := Function.update core.nvicPriority num (priority <<< 6) }

def pendIrqCmd (core : Core) : Irqn → Option Core
  | .exception number =>
      if number = nonMaskableIntIrqn ∨ number = pendSVIrqn ∨ number = sysTickIrqn then
        some { core with exceptionPending := Function.update core.exceptionPending number true }
      else none
  | .external num => some (core.realIrqSetPending num)

def clearIrqCmd (core : Core) : Irqn → Option Core
  | .exception _ => none
  | .external num => some (core.irqClear num)

def cacheEnabled (core : Core) (num : Irq) (enabled : Bool) : Core :=
  { core with irqEnabled := Function.update core.irqEnabled num enabled }

def enableIrqCmd (core : Core) : Irqn → Core
  | .exception _ => core
  | .external num =>
      let enabled :=
        if core.irqPriority num ≠ uint8Max then (core.irqClear num).realIrqSetEnabled num true
        else core.nmiSetEnable vectors num true
      enabled.cacheEnabled num true

def disableIrqCmd (core : Core) : Irqn → Core
  | .exception _ => core
  | .external num =>
      let disabled :=
        if core.irqPriority num ≠ uint8Max then core.realIrqSetEnabled num false
        else core.nmiSetEnable vectors num false
      disabled.cacheEnabled num false

def setPriorityCmd (core : Core) (priority : BitVec 8) : Irqn → Option Core
  | .exception _ => none
  | .external num =>
      let written := if priority ≠ uint8Max then core.nvicSetPriority num priority else core
      some { written with irqPriority := Function.update written.irqPriority num priority }

end Core

section Bits

variable (mask : Word) (num other : Irq)

theorem bit_getLsbD (index : Nat) : (bit num).getLsbD index = decide (num.val = index) := by
  have inside : num.val < 32 := num.isLt
  rw [bit, BitVec.getLsbD_shiftLeft]
  by_cases same : num.val = index
  · subst same
    simp [inside]
  · rw [decide_eq_false same]
    by_cases lower : index < num.val
    · simp [lower]
    · have above : ¬index - num.val = 0 := by omega
      simp [above, BitVec.getLsbD_one]

theorem flagSet_bit : flagSet mask (bit num) = mask.getLsbD num.val := by
  have inside : num.val < 32 := num.isLt
  have power : bit num = BitVec.twoPow 32 num.val := (BitVec.twoPow_eq 32 num.val).symm
  have positive : BitVec.twoPow 32 num.val ≠ 0#32 := by
    intro zero
    have set := congrArg (fun word => word.getLsbD num.val) zero
    simp [inside] at set
  rw [flagSet, power, BitVec.and_twoPow]
  cases mask.getLsbD num.val with
  | false => simp
  | true => simpa using positive

@[simp]
theorem flagSet_zero_bit : flagSet 0#32 (bit num) = false := by
  simp [flagSet_bit]

@[simp]
theorem flagSet_or_bit :
    flagSet (mask ||| bit num) (bit other) = (flagSet mask (bit other) || decide (num = other)) := by
  simp only [flagSet_bit, BitVec.getLsbD_or, bit_getLsbD, Fin.ext_iff]

@[simp]
theorem flagSet_and_not_bit :
    flagSet (mask &&& ~~~bit num) (bit other) =
      (flagSet mask (bit other) && !decide (num = other)) := by
  have inside : other.val < 32 := other.isLt
  simp only [flagSet_bit, BitVec.getLsbD_and, BitVec.getLsbD_not, bit_getLsbD, inside, decide_true,
    Bool.true_and, Fin.ext_iff]

end Bits

end PicoToolkit.Multicore
