import PicoToolkit.Port.Frames

/-!
Threads on two cores that share their memory, as the handlers see them: a thread runs on a core, or it is
kept in a scheduler frame on its stack.  The functions of the scheduler that the handlers call are here what
they do to the words that the handlers use.
-/

namespace PicoToolkit.Port

open Thumb

inductive Table where
  | svcVector
  | schedulerSvcVector
deriving DecidableEq

inductive Place (T : Type) where
  | cell (thread : T)
  | current (core : Fin 2)
  | entry (table : Table) (number : Fin 9)
  | cpuid
  | icsr
deriving DecidableEq

/-- Where the threads and the services are.  A thread is a task, or the caller of `scheduler_run` on a core,
which has no control block. -/
structure Addresses (T : Type) where
  symbols : Symbols
  address : T → Word
  home : T → Option (Fin 2)
  bottom : T → Nat
  top : T → Nat
  svcHandler0 : Word
  schedulerSvcHandler : Word
  service : Fin 9 → Word

namespace Addresses

variable {T : Type} (addresses : Addresses T)

/-- Where the pointer to the frame of a thread is kept: `psp` is the first field of a task. -/
def cell (thread : T) : Word :=
  if addresses.address thread = 0 then
    match addresses.home thread with
    | some core => addresses.symbols.clsDatum core addresses.symbols.schedulerInitialFrame
    | none => 0
  else addresses.address thread

def current (core : Fin 2) : Word :=
  addresses.symbols.clsDatum core addresses.symbols.currentTask

def table : Table → Word
  | .svcVector => addresses.symbols.svcVector
  | .schedulerSvcVector => addresses.symbols.schedulerSvcVector

def place : Place T → Word
  | .cell thread => addresses.cell thread
  | .current core => addresses.current core
  | .entry table number => wordAt (addresses.table table) number
  | .cpuid => Port.cpuid
  | .icsr => Port.icsr

def Within (thread : T) (address : Word) : Prop :=
  addresses.bottom thread ≤ address.toNat ∧ address.toNat < addresses.top thread

def flagged (number : Fin 9) : Prop := number = 4 ∨ number = 6

instance (number : Fin 9) : Decidable (flagged number) := inferInstanceAs (Decidable (_ ∨ _))

def entry : Table → Fin 9 → Word
  | .svcVector, number => if number = 0 then addresses.svcHandler0 else addresses.schedulerSvcHandler
  | .schedulerSvcVector, number =>
      if flagged number then addresses.service number ||| 2 else addresses.service number

end Addresses

/-- The stacks are apart, at most one thread runs on the main stack of a core, and the functions of the
services are at multiples of four. -/
structure Layout (T : Type) extends Addresses T where
  separate : Function.Injective toAddresses.place
  outside : ∀ place thread, ¬toAddresses.Within thread (toAddresses.place place)
  bounded : ∀ thread, top thread < 2 ^ 32
  apart : ∀ first second, first ≠ second → top first ≤ bottom second ∨ top second ≤ bottom first
  one_home : ∀ first second core, home first = some core → home second = some core → first = second
  caller_home : ∀ thread, address thread = 0 → home thread ≠ none
  multiple : ∀ number, service number &&& 2 = 0

/-- What a core does: it runs a thread, or it is in `scheduler_switch`, with the rest of its handler. -/
inductive Mode (T : Type) where
  | running (thread : T) (core : Core)
  | switching (rest : List Instr) (machine : Machine)

def Mode.main {T : Type} : Mode T → Word
  | .running _ core => core.reg .sp
  | .switching _ machine => machine.reg .sp

structure State (T : Type) where
  memory : Word → Word
  core : Fin 2 → Mode T
  kept : T → Prop

structure View where
  context : Context
  stack : Word → Word

def liveStack (memory : Word → Word) (low high : Nat) (address : Word) : Word :=
  if low ≤ address.toNat ∧ address.toNat < high then memory address else 0

def answer (value : Word) (context : Context) : Context :=
  { context with reg := Function.update context.reg .r0 value }

def View.answer (value : Word) (view : View) : View :=
  { view with context := Port.answer value view.context }

abbrev Contexts (T : Type) : Type := T → Option View

inductive Event (T : Type) where
  | ran (thread : T) (view : View)
  | answered (thread : T) (value : Word)
  | created (thread : T) (view : View)
  | ended (thread : T)

def Event.apply {T : Type} [DecidableEq T] (contexts : Contexts T) : Event T → Contexts T
  | .ran thread view => Function.update contexts thread (some view)
  | .answered thread value =>
      Function.update contexts thread ((contexts thread).map (View.answer value))
  | .created thread view => Function.update contexts thread (some view)
  | .ended thread => Function.update contexts thread none

/-- The memory with the first frame of a task, as `scheduler_create` stores it. -/
def storeFirstFrame (memory : Word → Word) (frame entryPoint context : Word) : Word → Word :=
  Function.update (Function.update (Function.update (Function.update (Function.update (Function.update
    memory (wordAt frame 0) 0xfffffffd) (wordAt frame 1) 2) (wordAt frame 16) (entryPoint &&& ~~~0x01))
    (wordAt frame 15) 0) (wordAt frame 17) 0x01000000) (wordAt frame 10) context

structure Returns (before after : Machine) : Prop where
  reg : ∀ register ∈ calleeSaved, after.reg register = before.reg register
  sp : after.reg .sp = before.reg .sp
  psp : after.psp = before.psp
  unprivileged : after.unprivileged = before.unprivileged

section System

variable {T : Type} (layout : Layout T)

def viewOf (memory : Word → Word) (thread : T) (context : Context) : View where
  context := context
  stack := liveStack memory (context.reg .sp).toNat (layout.top thread)

/-- The part of the stack of a thread that is its own, with the frame that it is kept in. -/
def Live (state : State T) (thread : T) (address : Word) : Prop :=
  (∃ core registers, state.core core = .running thread registers ∧
    registers.stackPointer.toNat ≤ address.toNat ∧ address.toNat < layout.top thread) ∨
  (state.kept thread ∧ (state.memory (layout.cell thread)).toNat ≤ address.toNat ∧
    address.toNat < layout.top thread)

def Guarded (state : State T) (except : Option T) (address : Word) : Prop :=
  (∃ core, address = layout.current core) ∨
  (∃ table number, address = layout.place (.entry table number)) ∨
  (∃ thread, state.kept thread ∧ address = layout.cell thread) ∨
  ∃ thread, some thread ≠ except ∧ Live layout state thread address

def seenBy (core : Fin 2) (memory : Word → Word) : Word → Word :=
  Function.update memory cpuid (BitVec.ofNat 32 core)

structure Ready (state : State T) (core : Fin 2) (thread : T) (registers : Core) : Prop where
  running : state.core core = .running thread registers
  room : layout.bottom thread + 76 ≤ registers.stackPointer.toNat

variable [DecidableEq T]

/-- The thread goes into its frame, to which its cell points, and the core has no current task. -/
def State.keep (state : State T) (core : Fin 2) (thread : T) (memory : Word → Word) (rest : List Instr)
    (machine : Machine) : State T where
  memory := memory
  core := Function.update state.core core (.switching rest machine)
  kept other := other = thread ∨ state.kept other

def State.goOn (state : State T) (core : Fin 2) (thread : T) (memory : Word → Word) (registers : Core) :
    State T :=
  { state with
    memory := memory
    core := Function.update state.core core (.running thread registers) }

def State.drop (state : State T) (core : Fin 2) (memory : Word → Word) (rest : List Instr)
    (machine : Machine) : State T :=
  { state with
    memory := memory
    core := Function.update state.core core (.switching rest machine) }

def State.resume (state : State T) (core : Fin 2) (thread : T) (memory : Word → Word)
    (registers : Core) : State T where
  memory := memory
  core := Function.update state.core core (.running thread registers)
  kept other := other ≠ thread ∧ state.kept other

def State.create (state : State T) (thread : T) (memory : Word → Word)
    (frame entryPoint context : Word) : State T where
  memory := Function.update (storeFirstFrame memory frame entryPoint context) (layout.cell thread) frame
  core := state.core
  kept other := other = thread ∨ state.kept other

structure Serves (memory : Word → Word) (core : Fin 2) (registers : Core) (number : Fin 9)
    (served : Machine) : Prop where
  code : byteAt (registers.enter (seenBy core memory)).memory (registers.pc - 2#32) =
    BitVec.ofNat 32 number
  reaches : ∃ link called,
    runHandler layout.symbols link (svcHandler layout.symbols) (registers.enter (seenBy core memory)) =
      some (.leave layout.schedulerSvcHandler called) ∧
    runHandler layout.symbols link (schedulerSvcHandler layout.symbols) called =
      some (.leave (layout.service number) served)

inductive Step (state : State T) : Option (Event T) → State T → Prop where
  /-- The code of a thread, with the interrupts on its stack. -/
  | ran {core : Fin 2} {thread : T} {before after : Core} {memory : Word → Word}
      (running : state.core core = .running thread before)
      (safe : ∀ address, Guarded layout state (some thread) address →
        memory address = state.memory address)
      (process : after.process = before.process)
      (main : before.process = true → after.reg .sp = before.reg .sp)
      (aligned : Aligned after.stackPointer)
      (lower : layout.bottom thread ≤ after.stackPointer.toNat)
      (upper : after.stackPointer.toNat ≤ layout.top thread) :
      Step state (some (.ran thread (viewOf layout memory thread after.context)))
        (state.goOn core thread memory after)
  /-- The scheduler and interrupts, as far as they do not answer a thread. -/
  | other {memory : Word → Word}
      (safe : ∀ address, Guarded layout state none address →
        memory address = state.memory address) :
      Step state none { state with memory := memory }
  /-- The scheduler stores a result into a frame: `psp->r0`. -/
  | answered {thread : T} {value : Word} (kept : state.kept thread) :
      Step state (some (.answered thread value))
        { state with
          memory := Function.update state.memory
            (wordAt (state.memory (layout.cell thread)) 10) value }
  /-- PendSV interrupts a task; `scheduler_switch` stores its frame pointer. -/
  | preempted {core : Fin 2} {thread : T} {before : Core} {link : Word} {rest : List Instr}
      {machine : Machine}
      (ready : Ready layout state core thread before)
      (task : layout.address thread ≠ 0)
      (handler : runHandler layout.symbols link (pendSvHandler layout.symbols)
        (before.enter (seenBy core state.memory)) =
          some (.call layout.symbols.schedulerSwitch rest machine)) :
      Step state none (state.keep core thread
        (Function.update (Function.update machine.memory (layout.cell thread) (machine.reg .r0))
          (layout.current core) 0) rest machine)
  /-- A service that needs a frame stores the frame pointer and pends PendSV, which follows at once. -/
  | blocked {core : Fin 2} {thread : T} {before : Core} {number : Fin 9} {served returned : Machine}
      {link : Word} {rest : List Instr} {machine : Machine}
      (ready : Ready layout state core thread before)
      (task : layout.address thread ≠ 0)
      (frame : Addresses.flagged number)
      (serves : Serves layout state.memory core before number served)
      (returns : Returns served returned)
      (stored : returned.memory = Function.update
        (Function.update served.memory (layout.cell thread) (served.reg .r0)) (layout.current core) 0)
      (handler : runHandler layout.symbols link (pendSvHandler layout.symbols)
        (returned.set .lr (served.reg .lr)) =
          some (.call layout.symbols.schedulerSwitch rest machine)) :
      Step state none (state.keep core thread machine.memory rest machine)
  /-- The service call of `scheduler_run`, after which PendSV follows at once. -/
  | started {core : Fin 2} {thread : T} {before : Core} {link return_value : Word}
      {called pended : Machine} {rest : List Instr} {machine : Machine}
      (ready : Ready layout state core thread before)
      (caller : layout.address thread = 0)
      (code : byteAt (before.enter (seenBy core state.memory)).memory (before.pc - 2#32) = 0#32)
      (dispatch : runHandler layout.symbols link (svcHandler layout.symbols)
        (before.enter (seenBy core state.memory)) = some (.leave layout.svcHandler0 called))
      (start : runHandler layout.symbols link (svcHandler0 layout.symbols) called =
        some (.leave return_value pended))
      (handler : runHandler layout.symbols link (pendSvHandler layout.symbols)
        (pended.set .lr return_value) =
          some (.call layout.symbols.schedulerSwitch rest machine)) :
      Step state none (state.keep core thread machine.memory rest machine)
  /-- Another service stores its result and returns. -/
  | served {core : Fin 2} {thread : T} {before after : Core} {number : Fin 9}
      {served returned : Machine} {value : Word}
      (ready : Ready layout state core thread before)
      (plain : ¬Addresses.flagged number)
      (serves : Serves layout state.memory core before number served)
      (returns : Returns served returned)
      (stored : returned.memory = Function.update served.memory (served.reg .r0) value)
      (left : leave (served.reg .lr) returned = some after) :
      Step state (some (.answered thread value)) (state.goOn core thread returned.memory after)
  /-- `scheduler_switch` has picked a thread and returns its frame. -/
  | resumed {core : Fin 2} {thread : T} {rest : List Instr} {machine before after : Machine}
      {link return_value : Word} {registers : Core}
      (switching : state.core core = .switching rest machine)
      (kept : state.kept thread)
      (home : ∀ other, layout.home thread = some other → other = core)
      (sp : before.reg .sp = machine.reg .sp)
      (pointer : before.reg .r0 = state.memory (layout.cell thread))
      (memory : before.memory = seenBy core
        (Function.update state.memory (layout.current core) (layout.address thread)))
      (handler : run (known layout.symbols) link (pendSvHandler layout.symbols) fuel rest before =
        some (.leave return_value after))
      (left : leave return_value after = some registers) :
      Step state none (state.resume core thread after.memory registers)
  /-- `scheduler_create` for a task with a stack of its own. -/
  | created {thread : T} {memory : Word → Word} {frame entryPoint context : Word}
      (fresh : ¬state.kept thread)
      (idle : ∀ core registers, state.core core ≠ .running thread registers)
      (task : layout.address thread ≠ 0)
      (process : layout.home thread = none)
      (safe : ∀ address, Guarded layout state none address →
        memory address = state.memory address)
      (aligned : Aligned frame)
      (lower : layout.bottom thread ≤ frame.toNat)
      (upper : frame.toNat + 72 ≤ layout.top thread) :
      Step state (some (.created thread (viewOf layout
          (storeFirstFrame memory frame entryPoint context) thread
          (frameContext (storeFirstFrame memory frame entryPoint context) frame))))
        (state.create layout thread memory frame entryPoint context)
  /-- A thread that does not run is terminated. -/
  | ended {thread : T} (kept : state.kept thread) :
      Step state (some (.ended thread))
        { state with kept := fun other => other ≠ thread ∧ state.kept other }
  /-- A task terminates itself: the core has no current task, and PendSV follows at once. -/
  | exited {core : Fin 2} {thread : T} {before : Core} {number : Fin 9} {served returned : Machine}
      {link : Word} {rest : List Instr} {machine : Machine}
      (ready : Ready layout state core thread before)
      (task : layout.address thread ≠ 0)
      (plain : ¬Addresses.flagged number)
      (serves : Serves layout state.memory core before number served)
      (returns : Returns served returned)
      (stored : returned.memory = Function.update served.memory (layout.current core) 0)
      (handler : runHandler layout.symbols link (pendSvHandler layout.symbols)
        (returned.set .lr (served.reg .lr)) =
          some (.call layout.symbols.schedulerSwitch rest machine)) :
      Step state (some (.ended thread)) (state.drop core machine.memory rest machine)

/-- A run, with what happens to the threads in it. -/
inductive Runs (initial : State T) : List (Event T) → State T → Prop where
  | start : Runs initial [] initial
  | step {events : List (Event T)} {event : Option (Event T)} {before after : State T}
      (earlier : Runs initial events before) (next : Step layout before event after) :
      Runs initial (events ++ event.toList) after

end System

end PicoToolkit.Port
