import PicoToolkit.Multicore.Preemption

/-!
The interrupt commands of two cores.  A call for the other core is packed into a word for the inter-core
FIFO and carried out by its handler; a call for the calling core goes through the wrapped functions of the
SDK, which route by affinity.
-/

namespace PicoToolkit.Multicore

open Transition

def multicoreCommandMsk : Word := 0xf0000000
def multicoreEvent : Word := 0x80000000
def multicorePendIrq : Word := 0x90000000
def multicoreClearIrq : Word := 0xa0000000
def multicoreIrqEnable : Word := 0xb0000000
def multicoreIrqDisable : Word := 0xc0000000
def multicoreSetPriority : Word := 0xd0000000

/-- The `uint` of an interrupt; an exception of the system is negative. -/
def Irqn.num : Irqn → Word
  | .exception number => BitVec.ofNat 32 number.val - 16
  | .external num => BitVec.ofNat 32 num.val

def Irqn.ofField (field : Word) : Option Irqn :=
  if exception : field.toNat < 16 then some (.exception ⟨field.toNat, exception⟩)
  else if external : field.toNat - 16 < numIrqs then some (.external ⟨field.toNat - 16, external⟩)
  else none

def Irqn.ofCommand (cmd : Word) : Option Irqn := Irqn.ofField (cmd &&& 0xffff)

def Call.command : Call → Word
  | .setEnable num true => multicoreIrqEnable ||| ((Irqn.external num).num + 16)
  | .setEnable num false => multicoreIrqDisable ||| ((Irqn.external num).num + 16)
  | .setPriority num hardwarePriority =>
      multicoreSetPriority ||| (hardwarePriority.setWidth 32 <<< 16) |||
        ((Irqn.external num).num + 16)
  | .setPending irq => multicorePendIrq ||| (irq.num + 16)
  | .clear num => multicoreClearIrq ||| ((Irqn.external num).num + 16)

namespace Core

variable (vectors : Vectors)

/-- What `multicore_irq_handler` does with one command.  The commands that execute code or read the
configuration back are not among those that the interface sends. -/
def handle (core : Core) (cmd : Word) : Option Core :=
  let code := cmd &&& multicoreCommandMsk
  if code = multicoreEvent then some core
  else if code = multicorePendIrq then (Irqn.ofCommand cmd).bind core.pendIrqCmd
  else if code = multicoreClearIrq then (Irqn.ofCommand cmd).bind core.clearIrqCmd
  else if code = multicoreIrqEnable then (Irqn.ofCommand cmd).map (core.enableIrqCmd vectors)
  else if code = multicoreIrqDisable then (Irqn.ofCommand cmd).map (core.disableIrqCmd vectors)
  else if code = multicoreSetPriority then
    (Irqn.ofCommand cmd).bind (core.setPriorityCmd (((cmd >>> 16) &&& 0x00ff).setWidth 8))
  else none

end Core

section Decode

variable {code : Word} (irq : Irqn)

theorem ofField_num : Irqn.ofField (irq.num + 16) = some irq := by
  cases irq with
  | exception number => revert number; decide
  | external num => revert num; decide

theorem num_and_ffff : (irq.num + 16) &&& 0xffff = irq.num + 16 := by
  cases irq with
  | exception number => revert number; decide
  | external num => revert num; decide

theorem num_and_upper : (irq.num + 16) &&& 0xffff0000 = 0 := by
  cases irq with
  | exception number => revert number; decide
  | external num => revert num; decide

theorem ofCommand_or (clean : code &&& 0xffff = 0) :
    Irqn.ofCommand (code ||| (irq.num + 16)) = some irq := by
  have low : (code ||| (irq.num + 16)) &&& 0xffff = irq.num + 16 := by
    rw [BitVec.and_comm, BitVec.and_or_distrib_left, BitVec.and_comm, clean, BitVec.and_comm,
      num_and_ffff]
    exact BitVec.zero_or
  rw [Irqn.ofCommand, low, ofField_num]

theorem or_and_upper {mask : Word} (upper : 0xffff0000 &&& mask = mask) :
    (code ||| (irq.num + 16)) &&& mask = code &&& mask := by
  have clear : (irq.num + 16) &&& mask = 0 := by
    rw [← upper, ← BitVec.and_assoc, num_and_upper]
    exact BitVec.zero_and
  rw [BitVec.and_comm, BitVec.and_or_distrib_left, BitVec.and_comm, BitVec.and_comm mask, clear]
  exact BitVec.or_zero

theorem priority_field (priority : BitVec 8) :
    (((multicoreSetPriority ||| (priority.setWidth 32 <<< 16) ||| (irq.num + 16)) >>> 16) &&&
      0x00ff).setWidth 8 = priority := by
  have moved : ((multicoreSetPriority ||| (priority.setWidth 32 <<< 16) ||| (irq.num + 16)) &&&
      0x00ff0000) >>> 16 =
      (multicoreSetPriority ||| (priority.setWidth 32 <<< 16) ||| (irq.num + 16)) >>> 16 &&&
        0x00ff := by
    rw [BitVec.ushiftRight_and_distrib]
    rfl
  rw [← moved, or_and_upper irq (by decide)]
  clear moved
  revert priority
  decide

end Decode

theorem Core.handle_command (vectors : Core.Vectors) (core : Core) (call : Call) :
    core.handle vectors call.command = core.perform vectors call := by
  cases call with
  | setEnable num enabled =>
      cases enabled with
      | true =>
          rw [Call.command, handle, or_and_upper _ (by decide), ofCommand_or _ (by decide)]
          rfl
      | false =>
          rw [Call.command, handle, or_and_upper _ (by decide), ofCommand_or _ (by decide)]
          rfl
  | setPriority num hardwarePriority =>
      have clean : (multicoreSetPriority ||| (hardwarePriority.setWidth 32 <<< 16)) &&& 0xffff = 0 := by
        revert hardwarePriority
        decide
      have coded : (multicoreSetPriority ||| (hardwarePriority.setWidth 32 <<< 16)) &&&
          multicoreCommandMsk = multicoreSetPriority := by
        revert hardwarePriority
        decide
      rw [Call.command, handle, or_and_upper _ (by decide), ofCommand_or _ clean, coded,
        priority_field]
      rfl
  | setPending irq =>
      rw [Call.command, handle, or_and_upper _ (by decide), ofCommand_or _ (by decide)]
      rfl
  | clear num =>
      rw [Call.command, handle, or_and_upper _ (by decide), ofCommand_or _ (by decide)]
      rfl

/-- The two cores with the commands that they carry out for themselves, the words on their way to each of
them, and the affinity of the interrupts. -/
structure Chip where
  cores : Fin 2 → Core
  parts : Fin 2 → Option Part
  fifos : Fin 2 → List Word
  irqAffinity : Irq → BitVec 8

def otherCore (core : Fin 2) : Fin 2 := 1 - core

namespace Chip

variable (vectors : Core.Vectors)

def push (chip : Chip) (caller : Fin 2) (cmd : Word) : Chip :=
  let target := otherCore caller
  { chip with fifos := Function.update chip.fifos target (chip.fifos target ++ [cmd]) }

def setCore (chip : Chip) (index : Fin 2) (core : Core) (part : Option Part) : Chip :=
  { chip with
    cores := Function.update chip.cores index core
    parts := Function.update chip.parts index part }

def start (chip : Chip) (caller : Fin 2) (call : Call) : Option Chip :=
  ((chip.cores caller).start call).map fun (started, part) => chip.setCore caller started part

def affine (chip : Chip) (caller : Fin 2) (num : Irq) : Bool :=
  (chip.irqAffinity num).toNat = caller.val

def wrapIrqSetEnabled (chip : Chip) (caller : Fin 2) (num : Irq) (enabled : Bool) : Option Chip :=
  if chip.affine caller num then chip.start caller (.setEnable num enabled)
  else some (chip.push caller (Call.setEnable num enabled).command)

def wrapIrqSetPriority (chip : Chip) (caller : Fin 2) (num : Irq) (hardwarePriority : BitVec 8) :
    Option Chip :=
  if chip.affine caller num then chip.start caller (.setPriority num hardwarePriority)
  else some (chip.push caller (Call.setPriority num hardwarePriority).command)

def multicoreIrqSetEnable (chip : Chip) (caller : Fin 2) (num : Irq) (core : Fin 2)
    (enabled : Bool) : Option Chip :=
  if core = caller then chip.wrapIrqSetEnabled caller num enabled
  else some (chip.push caller (Call.setEnable num enabled).command)

def multicoreIrqSetPriority (chip : Chip) (caller : Fin 2) (num : Irq) (core : Fin 2)
    (hardwarePriority : BitVec 8) : Option Chip :=
  if core = caller then chip.wrapIrqSetPriority caller num hardwarePriority
  else some (chip.push caller (Call.setPriority num hardwarePriority).command)

def multicoreIrqSetPending (chip : Chip) (caller : Fin 2) (irq : Irqn) (core : Fin 2) : Option Chip :=
  if core = caller then chip.start caller (.setPending irq)
  else some (chip.push caller (Call.setPending irq).command)

def multicoreIrqClear (chip : Chip) (caller : Fin 2) (num : Irq) (core : Fin 2) : Option Chip :=
  if core = caller then chip.start caller (.clear num)
  else some (chip.push caller (Call.clear num).command)

def irqSetAffinity (chip : Chip) (num : Irq) (core : Fin 2) : Chip :=
  { chip with
    irqAffinity := Function.update chip.irqAffinity num (BitVec.ofNat 8 core.val) }

def call (chip : Chip) (caller core : Fin 2) : Call → Option Chip
  | .setEnable num enabled => chip.multicoreIrqSetEnable caller num core enabled
  | .setPriority num hardwarePriority =>
      chip.multicoreIrqSetPriority caller num core hardwarePriority
  | .setPending irq => chip.multicoreIrqSetPending caller irq core
  | .clear num => chip.multicoreIrqClear caller num core

def advance (chip : Chip) (core : Fin 2) : Option Chip :=
  (chip.parts core).map fun part =>
    let (advanced, rest) := (chip.cores core).advance vectors part
    chip.setCore core advanced rest

def receive (chip : Chip) (core : Fin 2) : Option Chip :=
  match chip.fifos core with
  | [] => none
  | cmd :: rest =>
      ((chip.cores core).handle vectors cmd).map fun handled =>
        { chip with
          cores := Function.update chip.cores core handled
          fifos := Function.update chip.fifos core rest }

end Chip

inductive ChipAction where
  | call (caller core : Fin 2) (call : Call)
  | advance (core : Fin 2)
  | receive (core : Fin 2)
  | setAffinity (num : Irq) (core : Fin 2)

/-- The chip from given states of the cores on, with empty FIFOs and any affinities.  A core makes one call
at a time. -/
def chipSystem (vectors : Core.Vectors) (start : Fin 2 → Core) : System Chip ChipAction where
  initial chip := chip.cores = start ∧ (chip.parts = fun _ => none) ∧ chip.fifos = fun _ => []
  step chip
    | .call caller core call => if chip.parts caller = none then chip.call caller core call else none
    | .advance core => chip.advance vectors core
    | .receive core => chip.receive vectors core
    | .setAffinity num core => some (chip.irqSetAffinity num core)

/-- For each core the calls that name it: those executed or received there, and those on their way. -/
structure Calls where
  performed : Fin 2 → List Call := fun _ => []
  sent : Fin 2 → List Call := fun _ => []

def Calls.perform (calls : Calls) (core : Fin 2) (call : Call) : Calls :=
  { calls with performed := Function.update calls.performed core (calls.performed core ++ [call]) }

/-- A call of a core for itself is executed when it is over, or when only the cache is left to be written. -/
def Calls.record (chip : Chip) (action : ChipAction) (next : Chip) (calls : Calls) : Calls :=
  match action with
  | .call caller core call =>
      if core = caller then
        if next.parts core = none then calls.perform core call else calls
      else { calls with sent := Function.update calls.sent core (calls.sent core ++ [call]) }
  | .advance core =>
      match chip.parts core, next.parts core with
      | some part, some after =>
          if !part.caches && after.caches then calls.perform core part.call else calls
      | _, _ => calls
  | .receive core =>
      match calls.sent core with
      | [] => calls
      | call :: rest =>
          { calls.perform core call with sent := Function.update calls.sent core rest }
  | .setAffinity _ _ => calls

def replay (vectors : Core.Vectors) (core : Core) (calls : List Call) : Option Core :=
  calls.foldlM (fun core call => core.perform vectors call) core

def From (base core : Core) : Option Part → Prop
  | none => core = base
  | some part => base.Current part ∧ Core.Underway base core part

/-- Each core is in the state that the calls naming it have led to, or in the middle of another one, and what
is on its way to it are the other calls that name it. -/
def Accounted (vectors : Core.Vectors) (start : Fin 2 → Core) (recorded : Chip × Calls) : Prop :=
  ∀ core,
    (∃ base, replay vectors (start core) (recorded.2.performed core) = some base ∧
      From base (recorded.1.cores core) (recorded.1.parts core)) ∧
    recorded.1.fifos core = (recorded.2.sent core).map Call.command

/-- A call for the calling core enables, disables or prioritises an interrupt whose affinity is that
core. -/
def KeepsTarget (chip : Chip) : ChipAction → Prop
  | .call caller core (.setEnable num _) | .call caller core (.setPriority num _) =>
      core = caller → chip.affine caller num = true
  | _ => True

instance (chip : Chip) (action : ChipAction) : Decidable (KeepsTarget chip action) := by
  unfold KeepsTarget
  split <;> infer_instance

def SparesParts (recorded : Chip × Calls) : ChipAction → Prop
  | .receive core => ∀ part ∈ recorded.1.parts core, ∀ call ∈ (recorded.2.sent core).head?,
      (recorded.1.cores core).Spares call part
  | _ => True

instance (recorded : Chip × Calls) (action : ChipAction) : Decidable (SparesParts recorded action) := by
  unfold SparesParts
  split <;> infer_instance

section Steps

variable {vectors : Core.Vectors} {start : Fin 2 → Core} {chip next : Chip} {calls : Calls}
  {caller core : Fin 2} {call : Call}

theorem otherCore_eq (apart : core ≠ caller) : otherCore caller = core := by
  revert caller core
  decide

/-- With a command for the calling core kept there, a call begins on the calling core or is sent to the
other one, as it names them. -/
theorem call_of_keepsTarget (keeps : KeepsTarget chip (.call caller core call)) :
    chip.call caller core call =
      if core = caller then chip.start caller call else some (chip.push caller call.command) := by
  by_cases near : core = caller
  · cases call with
    | setEnable num enabled =>
        have affine : chip.affine caller num = true := keeps near
        simp [Chip.call, Chip.multicoreIrqSetEnable, Chip.wrapIrqSetEnabled, affine, near]
    | setPriority num hardwarePriority =>
        have affine : chip.affine caller num = true := keeps near
        simp [Chip.call, Chip.multicoreIrqSetPriority, Chip.wrapIrqSetPriority, affine, near]
    | setPending irq => simp [Chip.call, Chip.multicoreIrqSetPending, near]
    | clear num => simp [Chip.call, Chip.multicoreIrqClear, near]
  · cases call <;>
      simp [Chip.call, Chip.multicoreIrqSetEnable, Chip.multicoreIrqSetPriority,
        Chip.multicoreIrqSetPending, Chip.multicoreIrqClear, near]

theorem call_of_not_keepsTarget (strays : ¬KeepsTarget chip (.call caller core call)) :
    core = caller ∧ chip.call caller core call = some (chip.push caller call.command) := by
  cases call with
  | setEnable num enabled =>
      obtain ⟨near, foreign⟩ := Classical.not_imp.mp strays
      simp [Chip.call, Chip.multicoreIrqSetEnable, Chip.wrapIrqSetEnabled, foreign, near]
  | setPriority num hardwarePriority =>
      obtain ⟨near, foreign⟩ := Classical.not_imp.mp strays
      simp [Chip.call, Chip.multicoreIrqSetPriority, Chip.wrapIrqSetPriority, foreign, near]
  | setPending irq => exact absurd trivial strays
  | clear num => exact absurd trivial strays

theorem replay_append {first core next : Core} {calls : List Call}
    (before : replay vectors first calls = some core)
    (moved : core.perform vectors call = some next) :
    replay vectors first (calls ++ [call]) = some next := by
  rw [replay] at before ⊢
  rw [List.foldlM_append, before]
  simpa using moved

def AccountedOn (vectors : Core.Vectors) (start : Fin 2 → Core) (chip : Chip) (calls : Calls)
    (core : Fin 2) : Prop :=
  (∃ base, replay vectors (start core) (calls.performed core) = some base ∧
    From base (chip.cores core) (chip.parts core)) ∧
  chip.fifos core = (calls.sent core).map Call.command

theorem accounted_of_core (core : Fin 2) {after : Calls} (accounted : Accounted vectors start (chip, calls))
    (here : AccountedOn vectors start next after core)
    (elsewhere : ∀ other, other ≠ core → next.cores other = chip.cores other ∧
      next.parts other = chip.parts other ∧ next.fifos other = chip.fifos other ∧
      after.performed other = calls.performed other ∧ after.sent other = calls.sent other) :
    Accounted vectors start (next, after) := by
  intro other
  by_cases same : other = core
  · rw [same]
    exact here
  · obtain ⟨cores, parts, fifos, performed, sent⟩ := elsewhere other same
    simp only [cores, parts, fifos, performed, sent]
    exact accounted other

theorem accounted_start (accounted : Accounted vectors start (chip, calls))
    (idle : chip.parts core = none) (moved : chip.start core call = some next) :
    Accounted vectors start (next,
      if next.parts core = none then calls.perform core call else calls) := by
  obtain ⟨⟨base, replayed, same⟩, sent⟩ := accounted core
  simp only [idle] at same
  obtain rfl : chip.cores core = base := same
  obtain ⟨⟨started, part⟩, begins, rfl⟩ := Option.map_eq_some_iff.mp moved
  have begun := @Core.start_underway vectors _ _ _ _ begins
  have isPart : (chip.setCore core started part).parts core = part := Function.update_self _ _ _
  have isCore : (chip.setCore core started part).cores core = started := Function.update_self _ _ _
  rw [isPart]
  cases part with
  | none =>
      rw [if_pos rfl]
      refine accounted_of_core core accounted ⟨⟨started, ?_, ?_⟩, sent⟩ fun other apart => ?_
      · simpa only [Calls.perform, Function.update_self] using replay_append replayed begun
      · rw [isPart, isCore]
        rfl
      · simp [Chip.setCore, Calls.perform, apart]
  | some part =>
      obtain ⟨same, -, -, current, underway⟩ := begun
      refine accounted_of_core core accounted ⟨⟨_, replayed, ?_⟩, sent⟩ fun other apart => ?_
      · rw [isPart, isCore]
        exact ⟨current, underway⟩
      · simp [Chip.setCore, apart]

theorem accounted_call (accounted : Accounted vectors start (chip, calls))
    (keeps : KeepsTarget chip (.call caller core call)) (idle : chip.parts caller = none)
    (moved : chip.call caller core call = some next) :
    Accounted vectors start (next, calls.record chip (.call caller core call) next) := by
  rw [call_of_keepsTarget keeps] at moved
  by_cases near : core = caller
  · subst near
    rw [if_pos rfl] at moved
    simp only [Calls.record, if_true]
    exact accounted_start accounted idle moved
  · rw [if_neg near] at moved
    obtain rfl := Option.some_inj.mp moved
    simp only [Calls.record, if_neg near, Chip.push, otherCore_eq near]
    obtain ⟨led, sent⟩ := accounted core
    refine accounted_of_core core accounted ⟨led, ?_⟩ fun other apart => ?_
    · simp only [Function.update_self, List.map_append]
      exact congrArg (· ++ [call.command]) sent
    · simp [apart]

theorem accounted_advance (accounted : Accounted vectors start (chip, calls))
    (moved : chip.advance vectors core = some next) :
    Accounted vectors start (next, calls.record chip (.advance core) next) := by
  obtain ⟨⟨base, replayed, led⟩, sent⟩ := accounted core
  obtain ⟨part, isPart, rfl⟩ := Option.map_eq_some_iff.mp moved
  simp only [isPart] at led
  obtain ⟨current, underway⟩ := led
  have advanced := @Core.advanced vectors base _ part current underway
  generalize (chip.cores core).advance vectors part = result at advanced ⊢
  obtain ⟨reached, rest⟩ := result
  have after : (chip.setCore core reached rest).parts core = rest := Function.update_self _ _ _
  have isCore : (chip.setCore core reached rest).cores core = reached := Function.update_self _ _ _
  simp only [Calls.record, isPart, after]
  cases advanced with
  | @goesOn rest same early current underway =>
      simp only [early, Bool.and_false, Bool.false_eq_true, if_false]
      refine accounted_of_core core accounted ⟨⟨base, replayed, ?_⟩, sent⟩ fun other apart => ?_
      · rw [after, isCore]
        exact ⟨current, underway⟩
      · simp [Chip.setCore, apart]
  | @takesEffect rest performed early same late performs underway =>
      simp only [early, late, Bool.not_false, Bool.and_true, if_true]
      refine accounted_of_core core accounted ⟨⟨performed, ?_, ?_⟩, sent⟩ fun other apart => ?_
      · simpa only [Calls.perform, Function.update_self] using replay_append replayed performs
      · rw [after, isCore]
        exact ⟨Core.current_of_caches late, underway⟩
      · simp [Chip.setCore, Calls.perform, apart]
  | ends late same =>
      refine accounted_of_core core accounted ⟨⟨base, replayed, ?_⟩, sent⟩ fun other apart => ?_
      · rw [after, isCore]
        exact same
      · simp [Chip.setCore, apart]

theorem received_call (accounted : Accounted vectors start (chip, calls))
    (moved : chip.receive vectors core = some next) :
    ∃ call rest performed, calls.sent core = call :: rest ∧
      (chip.cores core).perform vectors call = some performed ∧
      next = { chip with
        cores := Function.update chip.cores core performed
        fifos := Function.update chip.fifos core (rest.map Call.command) } := by
  have waiting := (accounted core).2
  simp only [Chip.receive] at moved
  cases sent : calls.sent core with
  | nil =>
      simp only [sent, List.map_nil] at waiting
      simp [waiting] at moved
  | cons call rest =>
      simp only [sent, List.map_cons] at waiting
      simp only [waiting, Core.handle_command] at moved
      obtain ⟨performed, executed, same⟩ := Option.map_eq_some_iff.mp moved
      exact ⟨call, rest, performed, rfl, executed, same.symm⟩

theorem accounted_receive (accounted : Accounted vectors start (chip, calls))
    (spares : SparesParts (chip, calls) (.receive core))
    (moved : chip.receive vectors core = some next) :
    Accounted vectors start (next, calls.record chip (.receive core) next) := by
  obtain ⟨call, rest, performed, sent, executed, rfl⟩ := received_call accounted moved
  obtain ⟨⟨base, replayed, led⟩, -⟩ := accounted core
  have after : ∃ base, replay vectors (start core) (calls.performed core ++ [call]) = some base ∧
      From base performed (chip.parts core) := by
    cases isPart : chip.parts core with
    | none =>
        simp only [isPart] at led
        obtain rfl : chip.cores core = base := led
        exact ⟨performed, replay_append replayed executed, rfl⟩
    | some part =>
        simp only [isPart] at led
        have apart := spares part isPart call (by rw [sent]; rfl)
        obtain ⟨after, performs, current, underway⟩ := Core.received led.1 led.2 apart executed
        exact ⟨after, replay_append replayed performs, current, underway⟩
  simp only [Calls.record, sent]
  refine accounted_of_core core accounted ⟨?_, ?_⟩ fun other apart => ?_
  · simpa only [Calls.perform, Function.update_self] using after
  · simp only [Function.update_self]
  · simp [Calls.perform, apart]

theorem accounted_call_iff (accounted : Accounted vectors start (chip, calls))
    (idle : chip.parts caller = none) (moved : chip.call caller core call = some next) :
    Accounted vectors start (next, calls.record chip (.call caller core call) next) ↔
      KeepsTarget chip (.call caller core call) := by
  refine ⟨fun after => ?_, fun keeps => accounted_call accounted keeps idle moved⟩
  by_contra strays
  obtain ⟨rfl, pushed⟩ := call_of_not_keepsTarget strays
  obtain rfl := Option.some_inj.mp (pushed.symm.trans moved)
  have longer := congrArg List.length (after (otherCore core)).2
  have before := congrArg List.length (accounted (otherCore core)).2
  simp [Calls.record, Calls.perform, Chip.push, idle] at longer before
  omega

/-- A step may change the state of an interrupt on a core: a call that names both is executed or received
there. -/
def Names (recorded : Chip × Calls) (action : ChipAction) (core : Fin 2) (irq : Irqn) : Prop :=
  match action with
  | .call caller target call => target = caller ∧ core = target ∧ irq = call.irq
  | .advance target => core = target ∧ ∃ part ∈ recorded.1.parts target, irq = part.call.irq
  | .receive target =>
      core = target ∧ ∃ call rest, recorded.2.sent target = call :: rest ∧ irq = call.irq
  | .setAffinity _ _ => False

theorem step_state {action : ChipAction} (accounted : Accounted vectors start (chip, calls))
    (keeps : KeepsTarget chip action)
    (moved : (chipSystem vectors start).step chip action = some next) {irq : Irqn}
    (unnamed : ¬Names (chip, calls) action core irq) :
    (next.cores core).state irq = (chip.cores core).state irq := by
  cases action with
  | call caller target call =>
      obtain ⟨idle, moved⟩ := Option.ite_none_right_eq_some.mp moved
      rw [call_of_keepsTarget keeps] at moved
      by_cases near : target = caller
      · rw [if_pos near] at moved
        obtain ⟨⟨started, part⟩, begins, rfl⟩ := Option.map_eq_some_iff.mp moved
        have begun := @Core.start_underway vectors _ _ _ _ begins
        by_cases same : core = caller
        · have other : irq ≠ call.irq := fun named => unnamed ⟨near, by rw [same, near], named⟩
          simp only [same, Chip.setCore, Function.update_self]
          cases part with
          | none => exact Core.perform_state begun other
          | some part => rw [begun.1]
        · simp only [Chip.setCore, Function.update_of_ne same]
      · rw [if_neg near] at moved
        obtain rfl := Option.some_inj.mp moved
        rfl
  | advance target =>
      obtain ⟨part, isPart, rfl⟩ := Option.map_eq_some_iff.mp moved
      by_cases same : core = target
      · subst same
        obtain ⟨⟨base, -, led⟩, -⟩ := accounted core
        simp only [isPart] at led
        have other : irq ≠ part.call.irq := fun named => unnamed ⟨rfl, part, isPart, named⟩
        simp only [Chip.setCore, Function.update_self]
        exact Core.advance_state led.1 led.2 other
      · simp only [Chip.setCore, Function.update_of_ne same]
  | receive target =>
      obtain ⟨call, rest, performed, sent, executed, rfl⟩ := received_call accounted moved
      by_cases same : core = target
      · have other : irq ≠ call.irq := fun named => unnamed ⟨same, call, rest, sent, named⟩
        simp only [same, Function.update_self]
        exact Core.perform_state executed other
      · simp only [Function.update_of_ne same]
  | setAffinity num target =>
      obtain rfl := Option.some_inj.mp moved
      rfl

end Steps

/-- The steps that keep the claim's order: commands for the calling core stay there, and what a core receives
spares the command that it is in the middle of. -/
structure RoutedStep (recorded : Chip × Calls) (action : ChipAction) : Prop where
  keeps : KeepsTarget recorded.1 action
  spares : SparesParts recorded action

instance (recorded : Chip × Calls) (action : ChipAction) : Decidable (RoutedStep recorded action) :=
  decidable_of_iff (KeepsTarget recorded.1 action ∧ SparesParts recorded action)
    ⟨fun ⟨keeps, spares⟩ => ⟨keeps, spares⟩, fun routed => ⟨routed.keeps, routed.spares⟩⟩

def allAffine (core : Fin 2) : Chip where
  cores _ := Core.untouched
  parts _ := none
  fifos _ := []
  irqAffinity _ := BitVec.ofNat 8 core.val

/-- The first core enables an interrupt for itself and receives, before it has written the cache, that it is
to disable it: no order of the two calls leads to what is left. -/
theorem disturbed_not_accounted : ∃ recorded : Chip × Calls,
    ((chipSystem Core.handler fun _ => Core.untouched).record {} Calls.record).Guarded
      (fun recorded action => KeepsTarget recorded.1 action) recorded ∧
    recorded.1.parts 0 = none ∧
    ∀ calls ∈ [[Call.setEnable 3 true, .setEnable 3 false], [.setEnable 3 false, .setEnable 3 true]],
      replay Core.handler Core.untouched calls ≠ some (recorded.1.cores 0) := by
  obtain ⟨recorded, reached, idle, off, cached⟩ := @System.exists_of_run _ _
    ((chipSystem Core.handler fun _ => Core.untouched).record {} Calls.record)
    (fun recorded action => KeepsTarget recorded.1 action) _ (allAffine 0, {}) ⟨⟨rfl, rfl, rfl⟩, rfl⟩
    [.call 1 0 (.setEnable 3 false), .call 0 0 (.setEnable 3 true),
      .advance 0, .advance 0, .advance 0, .receive 0, .advance 0]
    (fun recorded => (recorded.1.parts 0).isNone = true ∧
      (recorded.1.cores 0).nvicIsEnabled 3 = false ∧ (recorded.1.cores 0).irqEnabled 3 = true)
    (fun _ => inferInstance) (by decide)
  refine ⟨recorded, reached, Option.isNone_iff_eq_none.mp idle, fun calls isOrder replayed => ?_⟩
  have agrees : ∀ calls ∈ [[Call.setEnable 3 true, .setEnable 3 false],
      [.setEnable 3 false, .setEnable 3 true]],
      (replay Core.handler Core.untouched calls).map (fun core => core.nvicIsEnabled 3) =
        (replay Core.handler Core.untouched calls).map fun core => core.irqEnabled 3 := by
    decide
  have same := agrees calls isOrder
  rw [replayed, Option.map_some, Option.map_some, off, cached] at same
  cases same

end PicoToolkit.Multicore
