import PicoToolkit.Multicore.Interrupts
import Mathlib.Data.Fintype.Card
import Mathlib.Data.List.Perm.Basic
import Mathlib.Data.List.FinRange

/-!
The commands of one core: what the cache says about an interrupt, and what the NVIC and the NMI deliver.
The table of handlers has a free entry whenever an interrupt is to be routed to the NMI.
-/

namespace PicoToolkit.Multicore

open Transition

theorem placeHandler_append {handler : Word} {limit : Nat} {handlers rest : List Word}
    (nonzero : 0 ∉ handlers) (room : handlers.length < limit) :
    placeHandler handler limit (handlers ++ 0 :: rest) = some (handlers ++ handler :: rest) := by
  induction handlers generalizing limit with
  | nil =>
      cases limit with
      | zero => simp at room
      | succ remaining => simp only [List.nil_append, placeHandler, if_true]
  | cons entry handlers ih =>
      cases limit with
      | zero => simp at room
      | succ remaining =>
          have apart : entry ≠ 0 := fun same => nonzero (by simp [same])
          have placed : placeHandler handler remaining (handlers ++ 0 :: rest) =
              some (handlers ++ handler :: rest) :=
            ih (fun later => nonzero (List.mem_cons_of_mem _ later)) (by simpa using room)
          simp only [List.cons_append, placeHandler, if_neg apart, placed, Option.map_some]

theorem removeHandler_found {handler : Word} {limit : Nat} {entry : Word} {handlers rest : List Word}
    (nonzero : 0 ∉ entry :: handlers) (room : handlers.length < limit) :
    removeHandler handler limit true (entry :: handlers ++ 0 :: rest) = handlers ++ 0 :: 0 :: rest := by
  have apart : entry ≠ 0 := fun same => nonzero (by simp [same])
  induction handlers generalizing limit entry with
  | nil =>
      cases limit with
      | zero => simp at room
      | succ remaining =>
          simp only [List.cons_append, List.nil_append, removeHandler, if_neg apart, Bool.true_or,
            if_true]
          cases remaining with
          | zero => simp only [removeHandler]
          | succ remaining => cases rest <;> simp only [removeHandler, if_true]
  | cons following handlers ih =>
      cases limit with
      | zero => simp at room
      | succ remaining =>
          have moved : removeHandler handler remaining true (following :: handlers ++ 0 :: rest) =
              handlers ++ 0 :: 0 :: rest :=
            ih (fun later => nonzero (List.mem_cons_of_mem _ later)) (by simpa using room)
              (fun same => nonzero (by simp [same]))
          simp only [List.cons_append] at moved ⊢
          simp only [removeHandler, if_neg apart, Bool.true_or, if_true, moved]

theorem removeHandler_append {handler : Word} {limit : Nat} {handlers rest : List Word}
    (nonzero : 0 ∉ handlers) (room : handlers.length ≤ limit) (present : handler ∈ handlers) :
    removeHandler handler limit false (handlers ++ 0 :: rest) =
      handlers.erase handler ++ 0 :: 0 :: rest := by
  induction handlers generalizing limit with
  | nil => simp at present
  | cons entry handlers ih =>
      have apart : entry ≠ 0 := fun same => nonzero (by simp [same])
      cases limit with
      | zero => simp at room
      | succ remaining =>
          by_cases first : entry = handler
          · subst first
            have moved : removeHandler entry (remaining + 1) true (entry :: handlers ++ 0 :: rest) =
                handlers ++ 0 :: 0 :: rest :=
              removeHandler_found nonzero (by simp at room; omega)
            rw [List.erase_cons_head, ← moved]
            cases handlers <;>
              simp only [List.cons_append, List.nil_append, removeHandler, if_neg apart, decide_true,
                Bool.or_true, if_true]
          · have later : handler ∈ handlers := by
              rcases List.mem_cons.mp present with same | later
              · exact absurd same.symm first
              · exact later
            have moved : removeHandler handler remaining false (handlers ++ 0 :: rest) =
                handlers.erase handler ++ 0 :: 0 :: rest :=
              ih (fun later => nonzero (List.mem_cons_of_mem _ later)) (by simpa using room) later
            have erased : (entry :: handlers).erase handler = entry :: handlers.erase handler :=
              List.erase_cons_tail (by simpa using first)
            rw [erased, List.cons_append, List.cons_append, ← moved]
            cases handlers with
            | nil => simp at later
            | cons following handlers =>
                simp only [List.cons_append, removeHandler, if_neg apart, decide_eq_false first,
                  Bool.or_false, Bool.false_eq_true, if_false]

theorem removeHandler_absent {handler : Word} {limit : Nat} {handlers rest : List Word}
    (nonzero : 0 ∉ handlers) (absent : handler ∉ handlers) :
    removeHandler handler limit false (handlers ++ 0 :: rest) = handlers ++ 0 :: rest := by
  induction handlers generalizing limit with
  | nil =>
      cases limit with
      | zero => simp only [removeHandler]
      | succ remaining =>
          cases rest <;> simp only [List.nil_append, removeHandler, if_true]
  | cons entry handlers ih =>
      cases limit with
      | zero => simp only [removeHandler]
      | succ remaining =>
          have apart : entry ≠ 0 := fun same => nonzero (by simp [same])
          have other : ¬entry = handler := fun same => absent (by simp [same])
          have moved : removeHandler handler remaining false (handlers ++ 0 :: rest) =
              handlers ++ 0 :: rest :=
            ih (fun later => nonzero (List.mem_cons_of_mem _ later))
              (fun later => absent (List.mem_cons_of_mem _ later))
          cases handlers <;>
            simp only [List.cons_append, List.nil_append] at moved ⊢ <;>
            simp only [removeHandler, if_neg apart, decide_eq_false other, Bool.or_false,
              Bool.false_eq_true, if_false, moved]

namespace Core

variable (vectors : Vectors)

def routed (core : Core) : List Irq := (List.finRange numIrqs).filter core.nmiIsEnabled

theorem routed_nodup (core : Core) : core.routed.Nodup :=
  (List.nodup_finRange _).filter _

@[simp]
theorem mem_routed {core : Core} {num : Irq} : num ∈ core.routed ↔ core.nmiIsEnabled num := by
  simp [routed]

def Tabled (core : Core) : Prop :=
  ∃ handlers : List Word,
    handlers.Perm ((core.routed.map vectors).filter (· ≠ 0)) ∧
      core.activeHandlers = handlers ++ List.replicate (numIrqs + 1 - handlers.length) 0

variable {vectors}

def withNmi (core : Core) (handlers : List Word) (mask : Word) : Core :=
  { core with activeHandlers := handlers, nmiProcMask := mask }

theorem withNmi_nmiIsEnabled (core : Core) (table : List Word) (mask : Word) (num : Irq) :
    (core.withNmi table mask).nmiIsEnabled num = flagSet mask (bit num) := rfl

theorem routed_perm_cons {core : Core} {num : Irq} (table : List Word)
    (clear : core.nmiIsEnabled num = false) :
    (core.withNmi table (core.nmiProcMask ||| bit num)).routed.Perm (num :: core.routed) := by
  have unique : (num :: core.routed).Nodup :=
    List.nodup_cons.mpr ⟨by simp [clear], core.routed_nodup⟩
  refine (List.perm_ext_iff_of_nodup (routed_nodup _) unique).mpr fun other => ?_
  rw [mem_routed, List.mem_cons, mem_routed, withNmi_nmiIsEnabled, flagSet_or_bit, Bool.or_eq_true,
    decide_eq_true_eq, or_comm, eq_comm, nmiIsEnabled]

theorem Tabled.nonzero {core : Core} {handlers : List Word}
    (holds : handlers.Perm ((core.routed.map vectors).filter (· ≠ 0))) : 0 ∉ handlers := by
  intro present
  have kept := (holds.mem_iff).mp present
  simp at kept

theorem routed_length_lt {core : Core} {num : Irq} (clear : core.nmiIsEnabled num = false) :
    core.routed.length < numIrqs := by
  have unique : (num :: core.routed).Nodup :=
    List.nodup_cons.mpr ⟨by simp [clear], core.routed_nodup⟩
  have fewer := unique.length_le_card
  rw [List.length_cons, Fintype.card_fin] at fewer
  exact fewer

theorem Tabled.length_le {core : Core} {handlers : List Word}
    (holds : handlers.Perm ((core.routed.map vectors).filter (· ≠ 0))) :
    handlers.length ≤ core.routed.length := by
  have fewer := List.length_filter_le (· ≠ 0) (core.routed.map vectors)
  rw [← holds.length_eq, List.length_map] at fewer
  exact fewer

theorem routed_perm_of_clears {core : Core} {num : Irq} (table : List Word)
    (present : core.nmiIsEnabled num = true) :
    core.routed.Perm (num :: (core.withNmi table (core.nmiProcMask &&& ~~~bit num)).routed) := by
  have gone : num ∉ (core.withNmi table (core.nmiProcMask &&& ~~~bit num)).routed := by
    simp [withNmi_nmiIsEnabled]
  have unique := List.nodup_cons.mpr ⟨gone, routed_nodup _⟩
  refine (List.perm_ext_iff_of_nodup core.routed_nodup unique).mpr fun other => ?_
  rw [mem_routed, List.mem_cons, mem_routed, withNmi_nmiIsEnabled, flagSet_and_not_bit]
  by_cases same : other = num
  · simp [same, present]
  · simp [same, Ne.symm same, nmiIsEnabled]

theorem Tabled.counted {core : Core} {handlers : List Word}
    (holds : handlers.Perm ((core.routed.map vectors).filter (· ≠ 0))) :
    ∃ free, numIrqs + 1 - handlers.length = free + 1 := by
  have fewer := Tabled.length_le holds
  have most := core.routed_nodup.length_le_card
  rw [Fintype.card_fin] at most
  exact ⟨numIrqs - handlers.length, by omega⟩

theorem Tabled.place {core : Core} (tabled : core.Tabled vectors) {num : Irq}
    (clear : core.nmiIsEnabled num = false) :
    ∃ placed, placeHandler (vectors num) numIrqs core.activeHandlers = some placed ∧
      (core.withNmi placed (core.nmiProcMask ||| bit num)).Tabled vectors := by
  obtain ⟨handlers, holds, table⟩ := tabled
  obtain ⟨free, counted⟩ := Tabled.counted holds
  have room : handlers.length < numIrqs :=
    lt_of_le_of_lt (Tabled.length_le holds) (routed_length_lt clear)
  rw [counted, List.replicate_succ] at table
  refine ⟨handlers ++ vectors num :: List.replicate free 0, ?_, ?_⟩
  · rw [table]
    exact placeHandler_append (Tabled.nonzero holds) room
  · have grown := ((routed_perm_cons (handlers ++ vectors num :: List.replicate free 0)
      clear).map vectors).filter (· ≠ 0)
    by_cases null : vectors num = 0
    · refine ⟨handlers, ?_, ?_⟩
      · rw [List.map_cons, List.filter_cons_of_neg (by simp [null])] at grown
        exact holds.trans grown.symm
      · rw [counted, List.replicate_succ, withNmi, null]
    · refine ⟨handlers ++ [vectors num], ?_, ?_⟩
      · rw [List.map_cons, List.filter_cons_of_pos (by simpa using null)] at grown
        exact (List.perm_append_singleton _ _).trans ((holds.cons _).trans grown.symm)
      · have left : numIrqs + 1 - (handlers ++ [vectors num]).length = free := by
          rw [List.length_append, List.length_singleton]
          omega
        rw [left, List.append_assoc, List.singleton_append, withNmi]

theorem Tabled.remove {core : Core} (tabled : core.Tabled vectors) {num : Irq}
    (present : core.nmiIsEnabled num = true) :
    (core.withNmi (removeHandler (vectors num) numIrqs false core.activeHandlers)
      (core.nmiProcMask &&& ~~~bit num)).Tabled vectors := by
  obtain ⟨handlers, holds, table⟩ := tabled
  obtain ⟨free, counted⟩ := Tabled.counted holds
  have nonzero := Tabled.nonzero holds
  have fits : handlers.length ≤ numIrqs := by omega
  have ending : List.replicate (numIrqs + 1 - handlers.length) (0 : Word) =
      0 :: List.replicate free 0 := by rw [counted, List.replicate_succ]
  have fewer := ((routed_perm_of_clears
    (removeHandler (vectors num) numIrqs false core.activeHandlers) present).map vectors).filter
      (· ≠ 0)
  by_cases null : vectors num = 0
  · rw [List.map_cons, List.filter_cons_of_neg (by simp [null])] at fewer
    refine ⟨handlers, holds.trans fewer, ?_⟩
    rw [withNmi, table, ending, removeHandler_absent nonzero (by rwa [null])]
  · rw [List.map_cons, List.filter_cons_of_pos (by simpa using null)] at fewer
    have kept : vectors num ∈ handlers := (holds.trans fewer).mem_iff.mpr List.mem_cons_self
    refine ⟨handlers.erase (vectors num), ?_, ?_⟩
    · have erased := (holds.trans fewer).erase (vectors num)
      rwa [List.erase_cons_head] at erased
    · have shorter := List.length_erase_of_mem kept
      have positive := List.length_pos_of_mem kept
      have left : numIrqs + 1 - (handlers.erase (vectors num)).length = free + 2 := by omega
      rw [withNmi, table, ending, removeHandler_append nonzero fits kept, left, List.replicate_succ,
        List.replicate_succ]

/-- Routing an interrupt to the NMI, or taking it away, changes the table and the mask, and nothing for
another interrupt. -/
theorem nmiSetEnable_spec {core : Core} (tabled : core.Tabled vectors) (num : Irq) (enabled : Bool) :
    ∃ table mask, core.nmiSetEnable vectors num enabled = core.withNmi table mask ∧
      (core.withNmi table mask).Tabled vectors ∧
      ∀ other, flagSet mask (bit other) =
        if other = num then enabled else core.nmiIsEnabled other := by
  by_cases already : core.nmiIsEnabled num = enabled
  · rw [nmiSetEnable, if_pos already]
    refine ⟨core.activeHandlers, core.nmiProcMask, rfl, tabled, fun other => ?_⟩
    split
    next same => rw [same, ← already, nmiIsEnabled]
    next => rfl
  rw [nmiSetEnable, if_neg already]
  cases enabled with
  | true =>
      obtain ⟨placed, found, kept⟩ := tabled.place (Bool.eq_false_of_not_eq_true already)
      rw [if_pos rfl, found]
      refine ⟨placed, core.nmiProcMask ||| bit num, rfl, kept, fun other => ?_⟩
      rw [flagSet_or_bit]
      by_cases same : other = num
      · simp [same]
      · simp [same, Ne.symm same, nmiIsEnabled]
  | false =>
      rw [if_neg Bool.false_ne_true]
      refine ⟨_, _, rfl, tabled.remove (by simpa using already), fun other => ?_⟩
      rw [flagSet_and_not_bit]
      by_cases same : other = num
      · simp [same]
      · simp [same, Ne.symm same, nmiIsEnabled]

/-- The cache tells whether an interrupt is delivered, by at most one of the two ways; the priority
tells by which. -/
def Agrees (core : Core) : Prop :=
  ∀ num,
    (core.irqEnabled num = true ↔ core.nvicIsEnabled num = true ∨ core.nmiIsEnabled num = true) ∧
    ¬(core.nvicIsEnabled num = true ∧ core.nmiIsEnabled num = true) ∧
    (core.nmiIsEnabled num = true ↔
      core.irqEnabled num = true ∧ core.irqPriority num = uint8Max)

def boosted (core : Core) (num : Irq) : Bool := core.irqPriority num = uint8Max

theorem boosted_eq_true {core : Core} {num : Irq} :
    core.boosted num = true ↔ core.irqPriority num = uint8Max := decide_eq_true_iff

theorem agrees_iff {core : Core} :
    core.Agrees ↔ ∀ num,
      core.nvicIsEnabled num = (core.irqEnabled num && !core.boosted num) ∧
      core.nmiIsEnabled num = (core.irqEnabled num && core.boosted num) := by
  refine forall_congr' fun num => ?_
  rw [← boosted_eq_true]
  cases core.boosted num <;> cases core.irqEnabled num <;> cases core.nvicIsEnabled num <;>
    cases core.nmiIsEnabled num <;> simp

inductive Command where
  | enable (num : Irq)
  | disable (num : Irq)
  | setPriority (num : Irq) (priority : BitVec 8)

def execute (core : Core) (vectors : Vectors) : Command → Option Core
  | .enable num => some (core.enableIrqCmd vectors (.external num))
  | .disable num => some (core.disableIrqCmd vectors (.external num))
  | .setPriority num priority => core.setPriorityCmd priority (.external num)

def commands (vectors : Vectors) : System Core Command where
  initial core := core.Fresh
  step core command := core.execute vectors command

/-- An enabled interrupt does not change between the NVIC and the NMI: its priority neither becomes nor
ceases to be the one of the NMI. -/
def KeepsMechanism (core : Core) : Command → Prop
  | .setPriority num priority =>
      core.irqEnabled num = true → (priority = uint8Max ↔ core.irqPriority num = uint8Max)
  | _ => True

instance (core : Core) (command : Command) : Decidable (core.KeepsMechanism command) := by
  cases command <;> unfold KeepsMechanism <;> infer_instance

@[simp]
theorem realIrqSetEnabled_nvicIsEnabled (core : Core) (num other : Irq) (enabled : Bool) :
    (core.realIrqSetEnabled num enabled).nvicIsEnabled other =
      if other = num then enabled else core.nvicIsEnabled other := by
  by_cases same : other = num
  · cases enabled <;> simp [realIrqSetEnabled, nvicIsEnabled, same]
  · cases enabled <;> simp [realIrqSetEnabled, nvicIsEnabled, same, Ne.symm same]

theorem fresh_agrees {core : Core} (fresh : core.Fresh) : core.Agrees := by
  rw [agrees_iff]
  intro num
  simp [nvicIsEnabled, nmiIsEnabled, fresh.nvicEnabled, fresh.nmiProcMask, fresh.irqEnabled]

theorem tabled_of_empty {core : Core} (empty : core.activeHandlers = List.replicate (numIrqs + 1) 0)
    (clear : core.nmiProcMask = 0) : core.Tabled vectors := by
  refine ⟨[], ?_, by simpa using empty⟩
  have none : core.routed = [] := by
    simp [routed, List.filter_eq_nil_iff, nmiIsEnabled, clear]
  simp [none]

theorem fresh_tabled {core : Core} (fresh : core.Fresh) : core.Tabled vectors :=
  tabled_of_empty fresh.activeHandlers fresh.nmiProcMask

@[simp]
theorem cacheEnabled_irqEnabled (core : Core) (num other : Irq) (enabled : Bool) :
    (core.cacheEnabled num enabled).irqEnabled other =
      if other = num then enabled else core.irqEnabled other :=
  Function.update_apply _ _ _ _

theorem Agrees.switchNvic {core : Core} (agrees : core.Agrees) {num : Irq} (enabled : Bool)
    (plain : core.irqPriority num ≠ uint8Max) :
    ((core.realIrqSetEnabled num enabled).cacheEnabled num enabled).Agrees := by
  rw [agrees_iff] at agrees ⊢
  intro other
  obtain ⟨delivered, routed⟩ := agrees other
  rw [cacheEnabled_irqEnabled]
  change (core.realIrqSetEnabled num enabled).nvicIsEnabled other = (_ && !core.boosted other) ∧
    core.nmiIsEnabled other = (_ && core.boosted other)
  rw [realIrqSetEnabled_nvicIsEnabled, delivered, routed]
  by_cases same : other = num
  · subst same
    have low : core.boosted other = false := decide_eq_false plain
    simp [low]
  · simp only [if_neg same, realIrqSetEnabled, and_self]

theorem Agrees.switchNmi {core : Core} (agrees : core.Agrees) (tabled : core.Tabled vectors)
    {num : Irq} (enabled : Bool) (high : core.irqPriority num = uint8Max) :
    ((core.nmiSetEnable vectors num enabled).cacheEnabled num enabled).Agrees ∧
      ((core.nmiSetEnable vectors num enabled).cacheEnabled num enabled).Tabled vectors := by
  obtain ⟨table, mask, written, kept, bits⟩ := nmiSetEnable_spec tabled num enabled
  rw [written, agrees_iff]
  rw [agrees_iff] at agrees
  refine ⟨fun other => ?_, kept⟩
  obtain ⟨delivered, routed⟩ := agrees other
  rw [cacheEnabled_irqEnabled]
  change core.nvicIsEnabled other = (_ && !core.boosted other) ∧
    flagSet mask (bit other) = (_ && core.boosted other)
  rw [bits other, delivered, routed]
  by_cases same : other = num
  · subst same
    have raised : core.boosted other = true := decide_eq_true high
    simp [raised]
  · simp only [if_neg same, withNmi, and_self]

theorem setPriorityCmd_external (core : Core) (num : Irq) (priority : BitVec 8) :
    ∃ hardware, core.setPriorityCmd priority (.external num) =
      some { core with
        nvicPriority := hardware
        irqPriority := Function.update core.irqPriority num priority } := by
  rw [setPriorityCmd]
  split
  next => exact ⟨_, rfl⟩
  next => exact ⟨core.nvicPriority, rfl⟩

/-- In a state where the cache is right, setting a priority leaves it right exactly if an enabled
interrupt keeps its way. -/
theorem agrees_setPriorityCmd_iff {core next : Core} (agrees : core.Agrees) {num : Irq}
    {priority : BitVec 8} (moved : core.setPriorityCmd priority (.external num) = some next) :
    next.Agrees ↔ core.KeepsMechanism (.setPriority num priority) := by
  obtain ⟨hardware, sets⟩ := core.setPriorityCmd_external num priority
  obtain rfl := Option.some_inj.mp (sets.symm.trans moved)
  set written := { core with
    nvicPriority := hardware
    irqPriority := Function.update core.irqPriority num priority }
  have raised : written.boosted num = decide (priority = uint8Max) := by
    simp [written, boosted]
  have others : ∀ other, other ≠ num → written.boosted other = core.boosted other := by
    intro other apart
    simp [written, boosted, apart]
  rw [agrees_iff] at agrees ⊢
  change (∀ other, core.nvicIsEnabled other = (core.irqEnabled other && !written.boosted other) ∧
    core.nmiIsEnabled other = (core.irqEnabled other && written.boosted other)) ↔ _
  constructor
  · intro after enabled
    have still := (after num).2
    rw [(agrees num).2, enabled, Bool.true_and, Bool.true_and, raised] at still
    exact (decide_eq_decide.mp still).symm
  · intro keeps other
    obtain ⟨delivered, routed⟩ := agrees other
    rw [delivered, routed]
    by_cases same : other = num
    · subst same
      cases enabled : core.irqEnabled other with
      | false => simp
      | true =>
          have stays : core.boosted other = decide (priority = uint8Max) :=
            decide_eq_decide.mpr (keeps enabled).symm
          rw [raised, stays]
          exact ⟨rfl, rfl⟩
    · rw [others other same]
      exact ⟨rfl, rfl⟩

theorem execute_agrees {core next : Core} {command : Command} (agrees : core.Agrees)
    (tabled : core.Tabled vectors) (keeps : core.KeepsMechanism command)
    (moved : core.execute vectors command = some next) : next.Agrees ∧ next.Tabled vectors := by
  cases command with
  | enable num =>
      obtain rfl := Option.some_inj.mp moved
      rw [enableIrqCmd]
      by_cases high : core.irqPriority num = uint8Max
      · simp only [if_neg (not_not.mpr high)]
        exact agrees.switchNmi tabled true high
      · simp only [if_pos high]
        have cleared : (core.irqClear num).Agrees := agrees
        exact ⟨cleared.switchNvic true high, tabled⟩
  | disable num =>
      obtain rfl := Option.some_inj.mp moved
      rw [disableIrqCmd]
      by_cases high : core.irqPriority num = uint8Max
      · simp only [if_neg (not_not.mpr high)]
        exact agrees.switchNmi tabled false high
      · simp only [if_pos high]
        exact ⟨agrees.switchNvic false high, tabled⟩
  | setPriority num priority =>
      refine ⟨(agrees_setPriorityCmd_iff agrees moved).mpr keeps, ?_⟩
      obtain ⟨hardware, written⟩ := core.setPriorityCmd_external num priority
      obtain rfl := Option.some_inj.mp (written.symm.trans moved)
      exact tabled

/-- In every run that changes no enabled interrupt between the NVIC and the NMI the cache, the NVIC and
the NMI agree, and a disabled interrupt is delivered by neither. -/
theorem routes_of_guarded {core : Core} (reached : (commands vectors).Guarded KeepsMechanism core) :
    core.Agrees ∧
      ∀ num, (core.disableIrqCmd vectors (.external num)).nvicIsEnabled num = false ∧
        (core.disableIrqCmd vectors (.external num)).nmiIsEnabled num = false := by
  obtain ⟨agrees, tabled⟩ := reached.invariant
    (motive := fun core => core.Agrees ∧ core.Tabled vectors)
    (fun core fresh => ⟨fresh_agrees fresh, fresh_tabled fresh⟩)
    (fun core command next holds keeps moved => execute_agrees holds.1 holds.2 keeps moved)
  refine ⟨agrees, fun num => ?_⟩
  have moved : core.execute vectors (.disable num) =
      some (core.disableIrqCmd vectors (.external num)) := rfl
  have keeps : core.KeepsMechanism (.disable num) := trivial
  have after := agrees_iff.mp (execute_agrees agrees tabled keeps moved).1 num
  have off : (core.disableIrqCmd vectors (.external num)).irqEnabled num = false := by
    simp [disableIrqCmd]
  rw [off] at after
  exact after

def handler : Vectors := fun num => num.val + 1

def untouched : Core where
  nvicEnabled := 0
  nvicPending := 0
  nvicPriority := fun _ => 0
  exceptionPending := fun _ => false
  nmiProcMask := 0
  activeHandlers := List.replicate (numIrqs + 1) 0
  irqEnabled := fun _ => false
  irqPriority := fun _ => 0

theorem untouched_fresh : untouched.Fresh := ⟨rfl, rfl, rfl, rfl, rfl⟩

theorem routes_of_guarded_run : ∃ core, (commands handler).Guarded KeepsMechanism core ∧
    core.nmiIsEnabled 3 = true ∧ core.Agrees := by
  obtain ⟨core, reached, routed⟩ := @System.exists_of_run _ _ (commands handler) KeepsMechanism _ _
    untouched_fresh [.enable 3, .disable 3, .setPriority 3 uint8Max, .enable 3]
    (fun core => core.nmiIsEnabled 3 = true) (fun _ => inferInstance) (by decide)
  exact ⟨core, reached, routed, (routes_of_guarded reached).1⟩

theorem not_routed : ¬∀ (vectors : Vectors) (core : Core), (commands vectors).Reachable core →
    core.Agrees := by
  intro claimed
  obtain ⟨core, reached, enabled, cached⟩ := @System.exists_of_run _ _ (commands handler)
    (fun _ _ => True) _ _ untouched_fresh [.enable 3, .setPriority 3 uint8Max, .disable 3]
    (fun core => core.nvicIsEnabled 3 = true ∧ core.irqEnabled 3 = false)
    (fun _ => inferInstance) (by decide)
  have delivered := ((claimed handler core reached 3).1).mpr (.inl enabled)
  rw [cached] at delivered
  cases delivered

end Core

end PicoToolkit.Multicore
