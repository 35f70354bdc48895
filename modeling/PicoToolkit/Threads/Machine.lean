import PicoToolkit.Cmsis.Kernel
import PicoToolkit.Futex.Requests
import PicoToolkit.Library.Interleaving

/-!
Threads and interrupt handlers that run a program on the scheduler.  A thread moves on while it is
current on a core; its waits and wakes are service calls, and a wait goes on with what the thread
finds in `r0` when it runs again.  All else that the system may do goes on meanwhile, except that it
leaves the memory of the program alone.
-/

namespace PicoToolkit

open Ring Transition Interleaving

inductive Request where
  | init (futex value flags : Word)
  | wait (futex expected ticks : Word)
  | wake (futex : Word) (all : Bool)
  | state (task : Word)

abbrev ThreadOp (Data Place : Type) : Type := Op Word Word Request Result Data Place

/-- A program with the places at which a call runs a function that it was given, which may ask the
scheduler for anything. -/
structure ThreadProgram (Data Place Entry : Type) extends
    Program Word Word Request Result Data Place (Context × Entry) where
  callsBack : Place → Bool := fun _ => false

inductive Owner (cores : Nat) where
  | task (task : Word)
  | handler (core : Fin cores)
  deriving DecidableEq

/-- A call of the program: who makes it, where it is, and whether it has asked the scheduler to wait
there. -/
structure Call (cores : Nat) (Place : Type) where
  owner : Owner cores
  place : Place
  waiting : Bool := false

structure Machine (cores : Nat) (Data Place : Type) where
  kernel : State Links cores
  data : Data
  calls : List (Call cores Place)
  calling : Word → Option Nat

/-- A step of anything else, the begin of a call by the thread of a core or by a handler, and the next
operation of a call. -/
inductive Label (cores : Nat) (Entry : Type) where
  | kernel (action : Action cores)
  | call (core : Fin cores) (entry : Entry)
  | interrupt (core : Fin cores) (entry : Entry)
  | act (core : Fin cores) (index : Nat)

section

variable {cores : Nat} {Data Place Entry : Type}

namespace Machine

def callOf (machine : Machine cores Data Place) (task : Word) : Option (Call cores Place) :=
  (machine.calling task).bind fun index => machine.calls[index]?

def busy (program : ThreadProgram Data Place Entry) (machine : Machine cores Data Place)
    (task : Word) : Bool :=
  (machine.callOf task).any fun call => (program.op call.place).isSome

def inside (program : ThreadProgram Data Place Entry) (machine : Machine cores Data Place)
    (task : Word) : Bool :=
  (machine.callOf task).any fun call =>
    (program.op call.place).isSome && !program.callsBack call.place

def runs (machine : Machine cores Data Place) (core : Fin cores) (index : Nat)
    (call : Call cores Place) : Bool :=
  match call.owner with
  | .task task =>
      decide (machine.kernel.currentTask core = some task) &&
        decide (machine.calling task = some index)
  | .handler other => decide (other = core)

def advance (machine : Machine cores Data Place) (index : Nat) (call : Call cores Place)
    (kernel : State Links cores) (place : Place) : Machine cores Data Place :=
  { machine with
    kernel := kernel
    calls := machine.calls.set index { call with place := place, waiting := false } }

end Machine

def Action.spares (cells : Word → Bool) : Action cores → Bool
  | .store address _ => !cells address
  | .futexInit _ value _ => !cells value
  | _ => true

/-- A step of the rest of the system: no task takes it while it runs code of the program. -/
def foreign (program : ThreadProgram Data Place Entry) (cells : Word → Bool)
    (machine : Machine cores Data Place) (action : Action cores) : Bool :=
  action.spares cells &&
    match action.caller.bind machine.kernel.currentTask with
    | none => true
    | some task => !machine.inside program task

def wakeAction (core : Fin cores) (futex : Word) (all : Bool) : Owner cores → Action cores
  | .task _ => .futexWake core futex all
  | .handler _ => .interruptWake core futex all

variable [NeZero cores]

/-- What a wake returns: to a handler whether its request was accepted, to a thread the number of tasks
woken, of which programs only see that it is not negative. -/
def wakeStatus (kernel : State Links cores) (core : Fin cores) (futex : Word) (all : Bool) :
    Owner cores → Result
  | .task _ => .value 0
  | .handler _ => futexWakeStatus core futex all kernel

def Machine.answer (machine : Machine cores Data Place) (core : Fin cores) (owner : Owner cores) :
    Request → Result
  | .wake futex all => wakeStatus machine.kernel core futex all owner
  | .state task => .value (BitVec.ofNat 32 (machine.kernel.task task).state.code)
  | _ => .value 0

def ask (machine : Machine cores Data Place) (core : Fin cores) (index : Nat)
    (call : Call cores Place) (resume : Result → Place) :
    Request → Option (Machine cores Data Place)
  | .init futex value flags =>
      (step machine.kernel (.futexInit futex value flags)).map fun kernel =>
        machine.advance index call kernel (resume (.value 0))
  | .wake futex all =>
      (step machine.kernel (wakeAction core futex all call.owner)).map fun kernel =>
        machine.advance index call kernel
          (resume (machine.answer core call.owner (.wake futex all)))
  | .state task =>
      some (machine.advance index call machine.kernel
        (resume (machine.answer core call.owner (.state task))))
  | .wait futex expected ticks =>
      match call.owner with
      | .handler _ => none
      | .task task =>
          if call.waiting then
            some (machine.advance index call machine.kernel (resume (machine.kernel.answer task)))
          else
            (step machine.kernel (.futexWait core futex expected ticks)).map fun kernel =>
              { machine with
                kernel := kernel
                calls := machine.calls.set index { call with waiting := true } }

def Machine.act (program : ThreadProgram Data Place Entry) (machine : Machine cores Data Place)
    (core : Fin cores) (index : Nat) (call : Call cores Place) :
    Option (Machine cores Data Place) :=
  match program.op call.place with
  | none => none
  | some (.word address act) =>
      let (value, place) := act (machine.kernel.memory address)
      some (machine.advance index call (machine.kernel.setMemory address value) place)
  | some (.data act) =>
      let (data, place) := act machine.data
      some { machine.advance index call machine.kernel place with data := data }
  | some (.service request resume) => ask machine core index call resume request

def Machine.step (program : ThreadProgram Data Place Entry) (cells : Word → Bool)
    (machine : Machine cores Data Place) : Label cores Entry → Option (Machine cores Data Place)
  | .kernel action =>
      if foreign program cells machine action then
        (PicoToolkit.step machine.kernel action).map fun kernel =>
          { machine with
            kernel := kernel
            calling :=
              match action with
              | .create _ task _ => Function.update machine.calling task none
              | _ => machine.calling }
      else none
  | .call core entry =>
      match machine.kernel.currentTask core with
      | none => none
      | some task =>
          if machine.busy program task then none
          else
            some { machine with
              calls := machine.calls ++ [⟨.task task, program.enter (.thread, entry), false⟩]
              calling := Function.update machine.calling task (some machine.calls.length) }
  | .interrupt core entry =>
      some { machine with
        calls := machine.calls ++ [⟨.handler core, program.enter (.handler, entry), false⟩] }
  | .act core index =>
      match machine.calls[index]? with
      | none => none
      | some call => if machine.runs core index call then machine.act program core index call else none

/-- How a run begins: in any state of the scheduler in which the words of the program have their
initial values and futexes that guard them have no flags set. -/
structure Machine.Begins (cells : Word → Bool) (memory : Word → Word) (data : Data)
    (machine : Machine cores Data Place) : Prop where
  kernel : (scheduler cores).Reachable machine.kernel
  memory : ∀ address, cells address → machine.kernel.memory address = memory address
  untracked : ∀ futex, cells (machine.kernel.futex futex).value →
    (machine.kernel.futex futex).flags = 0
  data : machine.data = data
  calls : machine.calls = []
  calling : machine.calling = fun _ => none

def machineSystem (program : ThreadProgram Data Place Entry) (cells : Word → Bool)
    (memory : Word → Word) (data : Data) :
    System (Machine cores Data Place) (Label cores Entry) where
  initial := Machine.Begins cells memory data
  step := Machine.step program cells

end

end PicoToolkit
