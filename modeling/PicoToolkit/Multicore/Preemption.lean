import PicoToolkit.Multicore.Delivery

/-!
The commands that a core carries out for itself, one access after the other.  The handler of the FIFO is
routed to the NMI, so that it may carry out a received command between two of them.
-/

namespace PicoToolkit.Multicore

inductive Call where
  | setEnable (num : Irq) (enabled : Bool)
  | setPriority (num : Irq) (hardwarePriority : BitVec 8)
  | setPending (irq : Irqn)
  | clear (num : Irq)

def Call.irq : Call → Irqn
  | .setEnable num _ | .setPriority num _ | .clear num => .external num
  | .setPending irq => irq

inductive Part where
  | choose (num : Irq) (enabled : Bool)
  | clear (num : Irq)
  | write (num : Irq) (enabled : Bool)
  | check (num : Irq) (enabled : Bool)
  | loadMask (num : Irq) (enabled : Bool)
  | storeMask (num : Irq) (enabled : Bool) (nmiState : Word)
  | cacheEnabled (num : Irq) (enabled : Bool)
  | loadPriority (num : Irq) (priority : BitVec 8)
  | storePriority (num : Irq) (priority : BitVec 8) (loaded : Irq → BitVec 8)
  | cachePriority (num : Irq) (priority : BitVec 8)

def Part.call : Part → Call
  | .choose num enabled | .write num enabled | .check num enabled | .loadMask num enabled
  | .storeMask num enabled _ | .cacheEnabled num enabled => .setEnable num enabled
  | .clear num => .setEnable num true
  | .loadPriority num priority | .storePriority num priority _ | .cachePriority num priority =>
      .setPriority num priority

def Part.caches : Part → Bool
  | .cacheEnabled _ _ | .cachePriority _ _ => true
  | _ => false

def SameRegister (num other : Irq) : Prop := num.val / 4 = other.val / 4

instance (num other : Irq) : Decidable (SameRegister num other) := inferInstanceAs (Decidable (_ = _))

structure IrqState where
  nvicEnabled : Bool := false
  pending : Bool
  nvicPriority : BitVec 8 := 0
  nmi : Bool := false
  irqEnabled : Bool := false
  irqPriority : BitVec 8 := 0

namespace Core

def perform (vectors : Vectors) (core : Core) : Call → Option Core
  | .setEnable num true => some (core.enableIrqCmd vectors (.external num))
  | .setEnable num false => some (core.disableIrqCmd vectors (.external num))
  | .setPriority num hardwarePriority => core.setPriorityCmd hardwarePriority (.external num)
  | .setPending irq => core.pendIrqCmd irq
  | .clear num => core.clearIrqCmd (.external num)

def state (core : Core) : Irqn → IrqState
  | .exception number => { pending := core.exceptionPending number }
  | .external num =>
      { nvicEnabled := core.nvicIsEnabled num
        pending := flagSet core.nvicPending (bit num)
        nvicPriority := core.nvicPriority num
        nmi := core.nmiIsEnabled num
        irqEnabled := core.irqEnabled num
        irqPriority := core.irqPriority num }

variable {vectors : Vectors}

def OnlyAt (num : Irq) (core next : Core) : Prop :=
  ∀ irq, irq ≠ .external num → next.state irq = core.state irq

theorem OnlyAt.trans {num : Irq} {core middle next : Core} (first : OnlyAt num core middle)
    (second : OnlyAt num middle next) : OnlyAt num core next := fun irq apart =>
  (second irq apart).trans (first irq apart)

theorem onlyAt_of {num : Irq} {core next : Core}
    (exceptions : next.exceptionPending = core.exceptionPending)
    (others : ∀ other, num ≠ other → next.state (.external other) = core.state (.external other)) :
    OnlyAt num core next := by
  intro irq apart
  cases irq with
  | exception number => simp only [state, exceptions]
  | external other => exact others other fun same => apart (by rw [same])

theorem irqClear_onlyAt (core : Core) (num : Irq) : OnlyAt num core (core.irqClear num) := by
  refine onlyAt_of rfl fun other apart => ?_
  simp [state, irqClear, apart, nvicIsEnabled, nmiIsEnabled]

theorem realIrqSetEnabled_onlyAt (core : Core) (num : Irq) (enabled : Bool) :
    OnlyAt num core (core.realIrqSetEnabled num enabled) := by
  refine onlyAt_of rfl fun other apart => ?_
  cases enabled <;> simp [state, realIrqSetEnabled, apart, nvicIsEnabled, nmiIsEnabled]

theorem realIrqSetPending_onlyAt (core : Core) (num : Irq) :
    OnlyAt num core (core.realIrqSetPending num) := by
  refine onlyAt_of rfl fun other apart => ?_
  simp [state, realIrqSetPending, apart, nvicIsEnabled, nmiIsEnabled]

theorem cacheEnabled_onlyAt (core : Core) (num : Irq) (enabled : Bool) :
    OnlyAt num core (core.cacheEnabled num enabled) := by
  refine onlyAt_of rfl fun other apart => ?_
  simp [state, cacheEnabled, Ne.symm apart, nvicIsEnabled, nmiIsEnabled]

theorem nmiSetEnable_onlyAt (core : Core) (num : Irq) (enabled : Bool) :
    OnlyAt num core (core.nmiSetEnable vectors num enabled) := by
  rw [nmiSetEnable]
  split
  next => exact fun _ _ => rfl
  next =>
    split
    next =>
      split
      next =>
        refine onlyAt_of rfl fun other apart => ?_
        simp [state, apart, nvicIsEnabled, nmiIsEnabled]
      next => exact fun _ _ => rfl
    next =>
      refine onlyAt_of rfl fun other apart => ?_
      simp [state, apart, nvicIsEnabled, nmiIsEnabled]

theorem enableIrqCmd_onlyAt (core : Core) (num : Irq) :
    OnlyAt num core (core.enableIrqCmd vectors (.external num)) := by
  rw [enableIrqCmd]
  refine OnlyAt.trans ?_ (cacheEnabled_onlyAt _ num true)
  split
  next => exact (core.irqClear_onlyAt num).trans (realIrqSetEnabled_onlyAt _ num true)
  next => exact core.nmiSetEnable_onlyAt num true

theorem disableIrqCmd_onlyAt (core : Core) (num : Irq) :
    OnlyAt num core (core.disableIrqCmd vectors (.external num)) := by
  rw [disableIrqCmd]
  refine OnlyAt.trans ?_ (cacheEnabled_onlyAt _ num false)
  split
  next => exact core.realIrqSetEnabled_onlyAt num false
  next => exact core.nmiSetEnable_onlyAt num false

theorem setPriorityCmd_onlyAt {core next : Core} {num : Irq} {priority : BitVec 8}
    (moved : core.setPriorityCmd priority (.external num) = some next) : OnlyAt num core next := by
  simp only [setPriorityCmd, Option.some_inj] at moved
  subst moved
  split <;>
    · refine onlyAt_of rfl fun other apart => ?_
      simp [state, nvicSetPriority, Ne.symm apart, nvicIsEnabled, nmiIsEnabled]

theorem perform_state {core next : Core} {call : Call} (moved : core.perform vectors call = some next)
    {irq : Irqn} (apart : irq ≠ call.irq) : next.state irq = core.state irq := by
  cases call with
  | setEnable num enabled =>
      cases enabled with
      | true =>
          obtain rfl := Option.some_inj.mp moved
          exact core.enableIrqCmd_onlyAt num irq apart
      | false =>
          obtain rfl := Option.some_inj.mp moved
          exact core.disableIrqCmd_onlyAt num irq apart
  | setPriority num hardwarePriority => exact setPriorityCmd_onlyAt moved irq apart
  | setPending pended =>
      cases pended with
      | exception number =>
          simp only [perform, pendIrqCmd, Option.ite_none_right_eq_some, Option.some_inj] at moved
          obtain ⟨-, rfl⟩ := moved
          cases irq with
          | exception other =>
              have differs : other ≠ number := fun same => apart (by rw [same, Call.irq])
              simp [state, differs]
          | external num => rfl
      | external num =>
          obtain rfl := Option.some_inj.mp moved
          exact core.realIrqSetPending_onlyAt num irq apart
  | clear num =>
      obtain rfl := Option.some_inj.mp moved
      exact core.irqClear_onlyAt num irq apart

section Parts

variable (vectors : Vectors)

def start (core : Core) : Call → Option (Core × Option Part)
  | .setEnable num enabled => some (core, some (.choose num enabled))
  | .setPriority num hardwarePriority =>
      if hardwarePriority ≠ uint8Max then some (core, some (.loadPriority num hardwarePriority))
      else (core.setPriorityCmd hardwarePriority (.external num)).map fun written => (written, none)
  | .setPending irq => (core.pendIrqCmd irq).map fun pended => (pended, none)
  | .clear num => (core.clearIrqCmd (.external num)).map fun cleared => (cleared, none)

/-- `nmi_set_enable` between its two stores to the mask: the first one keeps the NMI away. -/
def storeMask (core : Core) (num : Irq) (enabled : Bool) (nmiState : Word) : Core :=
  if enabled then
    match placeHandler (vectors num) numIrqs core.activeHandlers with
    | some placed => { core with activeHandlers := placed, nmiProcMask := nmiState ||| bit num }
    | none => { core with nmiProcMask := nmiState }
  else
    { core with
      activeHandlers := removeHandler (vectors num) numIrqs false core.activeHandlers
      nmiProcMask := nmiState &&& ~~~bit num }

/-- `NVIC_SetPriority` stores the whole register that it has loaded. -/
def storePriority (core : Core) (num : Irq) (priority : BitVec 8) (loaded : Irq → BitVec 8) : Core :=
  { core with
    nvicPriority := fun other =>
      if other = num then priority <<< 6
      else if SameRegister num other then loaded other
      else core.nvicPriority other }

def cachePriority (core : Core) (num : Irq) (priority : BitVec 8) : Core :=
  { core with irqPriority := Function.update core.irqPriority num priority }

def advance (core : Core) : Part → Core × Option Part
  | .choose num enabled =>
      let part : Part :=
        if core.irqPriority num ≠ uint8Max then if enabled then .clear num else .write num false
        else .check num enabled
      (core, some part)
  | .clear num => (core.irqClear num, some (.write num true))
  | .write num enabled => (core.realIrqSetEnabled num enabled, some (.cacheEnabled num enabled))
  | .check num enabled =>
      let part : Part :=
        if core.nmiIsEnabled num = enabled then .cacheEnabled num enabled else .loadMask num enabled
      (core, some part)
  | .loadMask num enabled => (core, some (.storeMask num enabled core.nmiProcMask))
  | .storeMask num enabled nmiState =>
      (core.storeMask vectors num enabled nmiState, some (.cacheEnabled num enabled))
  | .cacheEnabled num enabled => (core.cacheEnabled num enabled, none)
  | .loadPriority num priority => (core, some (.storePriority num priority core.nvicPriority))
  | .storePriority num priority loaded =>
      (core.storePriority num priority loaded, some (.cachePriority num priority))
  | .cachePriority num priority => (core.cachePriority num priority, none)

def Current (core : Core) : Part → Prop
  | .clear num | .write num _ => core.irqPriority num ≠ uint8Max
  | .check num _ => core.irqPriority num = uint8Max
  | .loadMask num enabled => core.irqPriority num = uint8Max ∧ core.nmiIsEnabled num ≠ enabled
  | .storeMask num enabled nmiState =>
      (core.irqPriority num = uint8Max ∧ core.nmiIsEnabled num ≠ enabled) ∧
        nmiState = core.nmiProcMask
  | .loadPriority _ priority => priority ≠ uint8Max
  | .storePriority num priority loaded => priority ≠ uint8Max ∧
      ∀ other, SameRegister num other → loaded other = core.nvicPriority other
  | .choose _ _ | .cacheEnabled _ _ | .cachePriority _ _ => True

/-- The core is in the middle of a command: what it has done so far leads there from a state in which the
command has not been performed, or, if only the cache is left, in which it has. -/
def Underway (base core : Core) : Part → Prop
  | .write num true => core = base.irqClear num
  | .cacheEnabled num enabled => base = core.cacheEnabled num enabled
  | .cachePriority num priority => base = core.cachePriority num priority
  | _ => core = base

/-- A received command spares one in the middle: it is for another interrupt, unless nothing has been read
or written yet that it changes, and it stores nothing to a register that the command has loaded. -/
def Spares (core : Core) (call : Call) : Part → Prop
  | .choose _ _ | .loadPriority _ _ => True
  | .clear num | .write num _ | .check num _ | .loadMask num _ | .cacheEnabled num _
  | .cachePriority num _ => call.irq ≠ .external num
  | .storeMask num _ _ => call.irq ≠ .external num ∧
      match call with
      | .setEnable other _ => core.irqPriority other ≠ uint8Max
      | _ => True
  | .storePriority num _ _ =>
      match call with
      | .setPriority other priority => priority ≠ uint8Max → ¬SameRegister num other
      | _ => True

instance (core : Core) (call : Call) (part : Part) : Decidable (core.Spares call part) := by
  unfold Spares
  split
  all_goals first | infer_instance | (split <;> infer_instance)

end Parts

section Underway

variable {vectors : Vectors} {base core next : Core} {part : Part} {call : Call}

theorem nmiSetEnable_eq (core : Core) (num : Irq) (enabled : Bool) :
    core.nmiSetEnable vectors num enabled =
      if core.nmiIsEnabled num = enabled then core
      else core.storeMask vectors num enabled core.nmiProcMask := by
  unfold nmiSetEnable storeMask
  cases placeHandler (vectors num) numIrqs core.activeHandlers with
  | none => rfl
  | some placed => rfl

theorem perform_setEnable_plain {num : Irq} (enabled : Bool) (plain : core.irqPriority num ≠ uint8Max) :
    core.perform vectors (.setEnable num enabled) =
      some (((if enabled then core.irqClear num else core).realIrqSetEnabled num enabled).cacheEnabled
        num enabled) := by
  cases enabled with
  | true => simp only [perform, enableIrqCmd, ne_eq, plain, not_false_eq_true, if_true]
  | false =>
      simp only [perform, disableIrqCmd, ne_eq, plain, not_false_eq_true, if_true, Bool.false_eq_true,
        if_false]

theorem perform_setEnable_boosted {num : Irq} (enabled : Bool) (high : core.irqPriority num = uint8Max) :
    core.perform vectors (.setEnable num enabled) =
      some ((core.nmiSetEnable vectors num enabled).cacheEnabled num enabled) := by
  cases enabled with
  | true => simp only [perform, enableIrqCmd, ne_eq, high, not_true_eq_false, if_false]
  | false => simp only [perform, disableIrqCmd, ne_eq, high, not_true_eq_false, if_false]

theorem storePriority_eq {num : Irq} {priority : BitVec 8} {loaded : Irq → BitVec 8}
    (same : ∀ other, SameRegister num other → loaded other = core.nvicPriority other) :
    core.storePriority num priority loaded = core.nvicSetPriority num priority := by
  have stored : (fun other =>
      if other = num then priority <<< 6
      else if SameRegister num other then loaded other
      else core.nvicPriority other) = Function.update core.nvicPriority num (priority <<< 6) := by
    funext other
    rw [Function.update_apply]
    split
    next => rfl
    next =>
      split
      next register => exact same other register
      next => rfl
  rw [storePriority, stored, nvicSetPriority]

/-- What a step of a command has led to: it goes on, it has taken effect except for the cache, or it is
over. -/
inductive Advanced (vectors : Vectors) (base next : Core) (part : Part) : Option Part → Prop
  | goesOn {after} (same : after.call = part.call) (early : after.caches = false)
      (current : base.Current after) (underway : Underway base next after) :
      Advanced vectors base next part (some after)
  | takesEffect {after performed} (early : part.caches = false) (same : after.call = part.call)
      (late : after.caches = true) (performs : base.perform vectors part.call = some performed)
      (underway : Underway performed next after) : Advanced vectors base next part (some after)
  | ends (late : part.caches = true) (same : next = base) : Advanced vectors base next part none

theorem advanced (current : base.Current part) (underway : Underway base core part) :
    Advanced vectors base (core.advance vectors part).1 part (core.advance vectors part).2 := by
  cases part with
  | choose num enabled =>
      obtain rfl := underway
      by_cases high : core.irqPriority num = uint8Max
      · simp only [advance, high, ne_eq, not_true_eq_false, if_false]
        exact .goesOn rfl rfl high rfl
      · cases enabled with
        | true =>
            simp only [advance, high, ne_eq, not_false_eq_true, if_true]
            exact .goesOn rfl rfl high rfl
        | false =>
            simp only [advance, high, ne_eq, not_false_eq_true, if_true, Bool.false_eq_true, if_false]
            exact .goesOn rfl rfl high rfl
  | clear num =>
      obtain rfl := underway
      exact .goesOn rfl rfl current rfl
  | write num enabled =>
      have performs := @perform_setEnable_plain vectors base num enabled current
      cases enabled with
      | true =>
          obtain rfl := underway
          exact .takesEffect rfl rfl rfl performs rfl
      | false =>
          obtain rfl := underway
          exact .takesEffect rfl rfl rfl performs rfl
  | check num enabled =>
      obtain rfl := underway
      by_cases already : core.nmiIsEnabled num = enabled
      · simp only [advance, already, if_true]
        refine .takesEffect rfl rfl rfl (perform_setEnable_boosted enabled current) ?_
        rw [nmiSetEnable_eq, if_pos already]
        rfl
      · simp only [advance, already, if_false]
        exact .goesOn rfl rfl ⟨current, already⟩ rfl
  | loadMask num enabled =>
      obtain rfl := underway
      exact .goesOn rfl rfl ⟨current, rfl⟩ rfl
  | storeMask num enabled nmiState =>
      obtain rfl := underway
      obtain ⟨⟨high, fresh⟩, rfl⟩ := current
      refine .takesEffect rfl rfl rfl (perform_setEnable_boosted enabled high) ?_
      rw [nmiSetEnable_eq, if_neg fresh]
      rfl
  | cacheEnabled num enabled => exact .ends rfl underway.symm
  | loadPriority num priority =>
      obtain rfl := underway
      exact .goesOn rfl rfl ⟨current, fun _ _ => rfl⟩ rfl
  | storePriority num priority loaded =>
      obtain rfl := underway
      obtain ⟨plain, same⟩ := current
      have performs : core.perform vectors (.setPriority num priority) =
          some ((core.nvicSetPriority num priority).cachePriority num priority) := by
        simp only [perform, setPriorityCmd, ne_eq, plain, not_false_eq_true, if_true]
        rfl
      rw [← storePriority_eq same] at performs
      exact .takesEffect rfl rfl rfl performs rfl
  | cachePriority num priority => exact .ends rfl underway.symm

theorem current_of_caches (late : part.caches = true) : base.Current part := by
  cases part with
  | cacheEnabled num enabled | cachePriority num priority => trivial
  | _ => cases late

theorem start_underway {part : Option Part} (begins : core.start call = some (next, part)) :
    match part with
    | none => core.perform vectors call = some next
    | some part => next = core ∧ part.call = call ∧ part.caches = false ∧ core.Current part ∧
        Underway core next part := by
  cases call with
  | setEnable num enabled =>
      cases begins
      exact ⟨rfl, rfl, rfl, trivial, rfl⟩
  | setPriority num priority =>
      simp only [start] at begins
      split at begins
      next plain =>
        cases begins
        exact ⟨rfl, rfl, rfl, plain, rfl⟩
      next =>
        obtain ⟨written, performs, same⟩ := Option.map_eq_some_iff.mp begins
        cases same
        exact performs
  | setPending irq =>
      obtain ⟨pended, performs, same⟩ := Option.map_eq_some_iff.mp begins
      cases same
      exact performs
  | clear num =>
      cases begins
      rfl

end Underway

section Received

variable {vectors : Vectors} {base core next : Core} {part : Part} {call : Call} {num : Irq}

structure Independent (num : Irq) (change : Core → Core) : Prop where
  priority : ∀ core other, other ≠ num → (change core).irqPriority other = core.irqPriority other
  handlers : ∀ core, (change core).activeHandlers = core.activeHandlers
  mask : ∀ core, (change core).nmiProcMask = core.nmiProcMask
  withNmi : ∀ core table mask, (change core).withNmi table mask = change (core.withNmi table mask)
  switch : ∀ core other enabled,
    (change core).realIrqSetEnabled other enabled = change (core.realIrqSetEnabled other enabled)
  clear : ∀ core other, (change core).irqClear other = change (core.irqClear other)
  pend : ∀ core other, other ≠ num →
    (change core).realIrqSetPending other = change (core.realIrqSetPending other)
  except : ∀ core pending,
    { change core with exceptionPending := pending } = change { core with exceptionPending := pending }
  exceptions : ∀ core, (change core).exceptionPending = core.exceptionPending
  enabled : ∀ core other enabled, other ≠ num →
    (change core).cacheEnabled other enabled = change (core.cacheEnabled other enabled)
  prioritise : ∀ core other priority,
    (change core).nvicSetPriority other priority = change (core.nvicSetPriority other priority)
  cached : ∀ core other priority, other ≠ num →
    (change core).cachePriority other priority = change (core.cachePriority other priority)

theorem Independent.nmiSetEnable {change : Core → Core} (independent : Independent num change)
    (core : Core) (other : Irq) (enabled : Bool) :
    (change core).nmiSetEnable vectors other enabled = change (core.nmiSetEnable vectors other enabled) := by
  have mask := independent.mask core
  have handlers := independent.handlers core
  have stored := independent.withNmi core
  rw [Core.nmiSetEnable, Core.nmiSetEnable, nmiIsEnabled, nmiIsEnabled, mask, handlers]
  split
  next => rfl
  next =>
    split
    next =>
      cases placeHandler (vectors other) numIrqs core.activeHandlers with
      | none => rfl
      | some placed => exact stored placed _
    next => exact stored _ _

theorem Independent.perform {change : Core → Core} (independent : Independent num change)
    (apart : call.irq ≠ .external num) (moved : core.perform vectors call = some next) :
    (change core).perform vectors call = some (change next) := by
  cases call with
  | setEnable other enabled =>
      have differs : other ≠ num := fun same => apart (by rw [same]; rfl)
      have priority := independent.priority core other differs
      by_cases high : core.irqPriority other = uint8Max
      · rw [perform_setEnable_boosted enabled high] at moved
        obtain rfl := Option.some_inj.mp moved
        rw [perform_setEnable_boosted enabled (priority.trans high), independent.nmiSetEnable,
          independent.enabled _ _ _ differs]
      · rw [perform_setEnable_plain enabled high] at moved
        obtain rfl := Option.some_inj.mp moved
        rw [perform_setEnable_plain enabled (priority ▸ high), ← independent.enabled _ _ _ differs,
          ← independent.switch]
        cases enabled with
        | true => rw [if_pos rfl, if_pos rfl, independent.clear]
        | false => rfl
  | setPriority other priority =>
      have differs : other ≠ num := fun same => apart (by rw [same]; rfl)
      obtain rfl := Option.some_inj.mp moved
      change some (Core.cachePriority _ other priority) = some (change (Core.cachePriority _ other priority))
      rw [← independent.cached _ _ _ differs]
      split
      next => rw [independent.prioritise]
      next => rfl
  | setPending irq =>
      cases irq with
      | exception number =>
          simp only [Core.perform, pendIrqCmd, Option.ite_none_right_eq_some, Option.some_inj] at moved ⊢
          obtain ⟨system, rfl⟩ := moved
          exact ⟨system, by rw [independent.exceptions, independent.except]⟩
      | external other =>
          have differs : other ≠ num := fun same => apart (by rw [same]; rfl)
          obtain rfl := Option.some_inj.mp moved
          exact congrArg some (independent.pend core other differs)
  | clear other =>
      obtain rfl := Option.some_inj.mp moved
      exact congrArg some (independent.clear core other)

theorem independent_cacheEnabled (enabled : Bool) : Independent num (·.cacheEnabled num enabled) where
  priority _ _ _ := rfl
  handlers _ := rfl
  mask _ := rfl
  withNmi _ _ _ := rfl
  switch _ _ _ := rfl
  clear _ _ := rfl
  pend _ _ _ := rfl
  except _ _ := rfl
  exceptions _ := rfl
  enabled core other value differs := by
    simp only [cacheEnabled, Function.update_comm differs]
  prioritise _ _ _ := rfl
  cached _ _ _ _ := rfl

theorem independent_cachePriority (priority : BitVec 8) : Independent num (·.cachePriority num priority) where
  priority _ _ differs := Function.update_of_ne differs _ _
  handlers _ := rfl
  mask _ := rfl
  withNmi _ _ _ := rfl
  switch _ _ _ := rfl
  clear _ _ := rfl
  pend _ _ _ := rfl
  except _ _ := rfl
  exceptions _ := rfl
  enabled _ _ _ _ := rfl
  prioritise _ _ _ := rfl
  cached core other value differs := by
    simp only [cachePriority, Function.update_comm differs]

theorem independent_irqClear : Independent num (·.irqClear num) where
  priority _ _ _ := rfl
  handlers _ := rfl
  mask _ := rfl
  withNmi _ _ _ := rfl
  switch _ _ _ := rfl
  clear core other := by
    simp only [irqClear, BitVec.and_assoc, BitVec.and_comm (~~~bit num)]
  pend core other differs := by
    have bits : core.nvicPending &&& ~~~bit num ||| bit other =
        (core.nvicPending ||| bit other) &&& ~~~bit num := by
      refine BitVec.eq_of_getLsbD_eq fun index below => ?_
      simp only [BitVec.getLsbD_or, BitVec.getLsbD_and, BitVec.getLsbD_not, bit_getLsbD, below,
        decide_true, Bool.true_and]
      by_cases isOther : other.val = index
      · have notNum : ¬num.val = index := fun same => differs (Fin.ext (isOther.trans same.symm))
        simp [isOther, notNum]
      · simp [isOther]
    simp only [irqClear, realIrqSetPending, bits]
  except _ _ := rfl
  exceptions _ := rfl
  enabled _ _ _ _ := rfl
  prioritise _ _ _ := rfl
  cached _ _ _ _ := rfl

theorem perform_nmiProcMask (moved : core.perform vectors call = some next)
    (plain : ∀ other enabled, call = .setEnable other enabled → core.irqPriority other ≠ uint8Max) :
    next.nmiProcMask = core.nmiProcMask := by
  cases call with
  | setEnable other enabled =>
      rw [perform_setEnable_plain enabled (plain other enabled rfl)] at moved
      obtain rfl := Option.some_inj.mp moved
      cases enabled with
      | true => rfl
      | false => rfl
  | setPriority other priority =>
      obtain ⟨hardware, written⟩ := core.setPriorityCmd_external other priority
      obtain rfl := Option.some_inj.mp (written.symm.trans moved)
      rfl
  | setPending irq =>
      cases irq with
      | exception number =>
          simp only [perform, pendIrqCmd, Option.ite_none_right_eq_some, Option.some_inj] at moved
          obtain ⟨-, rfl⟩ := moved
          rfl
      | external other =>
          obtain rfl := Option.some_inj.mp moved
          rfl
  | clear other =>
      obtain rfl := Option.some_inj.mp moved
      rfl

theorem nmiSetEnable_withNmi {enabled : Bool} :
    ∃ table mask, core.nmiSetEnable vectors num enabled = core.withNmi table mask := by
  rw [nmiSetEnable]
  split
  next => exact ⟨core.activeHandlers, core.nmiProcMask, rfl⟩
  next =>
    split
    next =>
      cases placeHandler (vectors num) numIrqs core.activeHandlers with
      | none => exact ⟨core.activeHandlers, core.nmiProcMask, rfl⟩
      | some placed => exact ⟨_, _, rfl⟩
    next => exact ⟨_, _, rfl⟩

theorem perform_nvicPriority (moved : core.perform vectors call = some next)
    (apart : ∀ stored priority, call = .setPriority stored priority → priority ≠ uint8Max →
      ¬SameRegister num stored) {other : Irq} (register : SameRegister num other) :
    next.nvicPriority other = core.nvicPriority other := by
  cases call with
  | setEnable stored enabled =>
      by_cases high : core.irqPriority stored = uint8Max
      · rw [perform_setEnable_boosted enabled high] at moved
        obtain rfl := Option.some_inj.mp moved
        obtain ⟨table, mask, written⟩ := @nmiSetEnable_withNmi vectors core stored enabled
        rw [written]
        rfl
      · rw [perform_setEnable_plain enabled high] at moved
        obtain rfl := Option.some_inj.mp moved
        cases enabled with
        | true => rfl
        | false => rfl
  | setPriority stored priority =>
      obtain rfl := Option.some_inj.mp moved
      change Core.nvicPriority (if priority ≠ uint8Max then core.nvicSetPriority stored priority else core) other = _
      split
      next plain =>
        refine Function.update_of_ne ?_ _ _
        rintro rfl
        exact apart _ priority rfl plain register
      next => rfl
  | setPending irq =>
      cases irq with
      | exception number =>
          simp only [perform, pendIrqCmd, Option.ite_none_right_eq_some, Option.some_inj] at moved
          obtain ⟨-, rfl⟩ := moved
          rfl
      | external pended =>
          obtain rfl := Option.some_inj.mp moved
          rfl
  | clear cleared =>
      obtain rfl := Option.some_inj.mp moved
      rfl

theorem perform_read (apart : call.irq ≠ .external num) (moved : core.perform vectors call = some next) :
    next.irqPriority num = core.irqPriority num ∧ next.nmiIsEnabled num = core.nmiIsEnabled num := by
  have same := @perform_state vectors core next call moved (.external num) (Ne.symm apart)
  exact ⟨congrArg IrqState.irqPriority same, congrArg IrqState.nmi same⟩

theorem perform_some (moved : core.perform vectors call = some next) (other : Core) :
    ∃ after, other.perform vectors call = some after := by
  cases call with
  | setEnable num enabled =>
      cases enabled with
      | true => exact ⟨_, rfl⟩
      | false => exact ⟨_, rfl⟩
  | setPriority num priority => exact ⟨_, rfl⟩
  | setPending irq =>
      cases irq with
      | exception number =>
          simp only [perform, pendIrqCmd, Option.ite_none_right_eq_some] at moved ⊢
          exact ⟨_, moved.1, rfl⟩
      | external num => exact ⟨_, rfl⟩
  | clear num => exact ⟨_, rfl⟩

/-- A received command that spares the one in the middle leaves it there, as if it had come before. -/
theorem received (current : base.Current part) (underway : Underway base core part)
    (spares : core.Spares call part) (moved : core.perform vectors call = some next) :
    ∃ after, base.perform vectors call = some after ∧ after.Current part ∧ Underway after next part := by
  cases part with
  | choose num enabled =>
      obtain rfl := underway
      exact ⟨next, moved, trivial, rfl⟩
  | clear num =>
      obtain rfl := underway
      obtain ⟨priority, _⟩ := perform_read spares moved
      exact ⟨next, moved, fun high => current (priority.symm.trans high), rfl⟩
  | write num enabled =>
      cases enabled with
      | true =>
          obtain rfl := underway
          obtain ⟨after, performed⟩ := perform_some moved base
          obtain ⟨priority, _⟩ := perform_read spares performed
          obtain rfl := Option.some_inj.mp ((independent_irqClear.perform spares performed).symm.trans moved)
          exact ⟨after, performed, fun high => current (priority.symm.trans high), rfl⟩
      | false =>
          obtain rfl := underway
          obtain ⟨priority, _⟩ := perform_read spares moved
          exact ⟨next, moved, fun high => current (priority.symm.trans high), rfl⟩
  | check num enabled =>
      obtain rfl := underway
      exact ⟨next, moved, (perform_read spares moved).1.trans current, rfl⟩
  | loadMask num enabled =>
      obtain rfl := underway
      obtain ⟨priority, routed⟩ := perform_read spares moved
      exact ⟨next, moved, ⟨priority.trans current.1, routed ▸ current.2⟩, rfl⟩
  | storeMask num enabled nmiState =>
      obtain rfl := underway
      obtain ⟨⟨high, fresh⟩, loaded⟩ := current
      obtain ⟨apart, plain⟩ := spares
      obtain ⟨priority, routed⟩ := perform_read apart moved
      have mask := perform_nmiProcMask moved (by rintro other value rfl; exact plain)
      exact ⟨next, moved, ⟨⟨priority.trans high, routed ▸ fresh⟩, loaded.trans mask.symm⟩, rfl⟩
  | cacheEnabled num enabled =>
      obtain rfl := underway
      exact ⟨_, (independent_cacheEnabled enabled).perform spares moved, trivial, rfl⟩
  | loadPriority num priority =>
      obtain rfl := underway
      exact ⟨next, moved, current, rfl⟩
  | storePriority num priority loaded =>
      obtain rfl := underway
      obtain ⟨plain, same⟩ := current
      refine ⟨next, moved, ⟨plain, fun other register => (same other register).trans ?_⟩, rfl⟩
      refine (perform_nvicPriority moved ?_ register).symm
      rintro stored value rfl
      exact spares
  | cachePriority num priority =>
      obtain rfl := underway
      exact ⟨_, (independent_cachePriority priority).perform spares moved, trivial, rfl⟩

theorem nvicSetPriority_onlyAt (core : Core) (num : Irq) (priority : BitVec 8) :
    OnlyAt num core (core.nvicSetPriority num priority) := by
  refine onlyAt_of rfl fun other apart => ?_
  simp [state, nvicSetPriority, Ne.symm apart, nvicIsEnabled, nmiIsEnabled]

theorem cachePriority_onlyAt (core : Core) (num : Irq) (priority : BitVec 8) :
    OnlyAt num core (core.cachePriority num priority) := by
  refine onlyAt_of rfl fun other apart => ?_
  simp [state, cachePriority, Ne.symm apart, nvicIsEnabled, nmiIsEnabled]

theorem advance_state (current : base.Current part) (underway : Underway base core part) {irq : Irqn}
    (apart : irq ≠ part.call.irq) : (core.advance vectors part).1.state irq = core.state irq := by
  cases part with
  | choose num enabled | check num enabled | loadMask num enabled | loadPriority num priority => rfl
  | clear num => exact core.irqClear_onlyAt num irq apart
  | write num enabled => exact core.realIrqSetEnabled_onlyAt num enabled irq apart
  | storeMask num enabled nmiState =>
      obtain rfl := underway
      obtain ⟨⟨_, fresh⟩, rfl⟩ := current
      have same := @nmiSetEnable_onlyAt vectors core num enabled irq apart
      rw [nmiSetEnable_eq, if_neg fresh] at same
      exact same
  | cacheEnabled num enabled => exact core.cacheEnabled_onlyAt num enabled irq apart
  | storePriority num priority loaded =>
      obtain rfl := underway
      rw [advance, storePriority_eq current.2]
      exact core.nvicSetPriority_onlyAt num priority irq apart
  | cachePriority num priority => exact core.cachePriority_onlyAt num priority irq apart

end Received

end Core

end PicoToolkit.Multicore
