import Mathlib.Data.Fintype.Basic
import Mathlib.Data.Fin.Basic
import PicoToolkit.Library.Transition
import PicoToolkit.Scheduler.State

/-!
Thread-specific storage: `tss_create`, `tss_delete`, `tss_get`, `tss_set` and the clean-up of
`thrd_exit`.  A step is an access to a field of `tss_map` or to a word of the thread's own
`struct thrd`.
-/

namespace PicoToolkit

open Transition

/-- `__THRD_KEYS_MAX` -/
def thrdKeysMax : Nat := 8

/-- `TSS_DTOR_ITERATIONS` -/
def tssDtorIterations : Nat := 5

/-- `__THRD_MARKER` -/
def thrdMarker : Word := 0x137cc731

structure Tss where
  used : Bool := false
  destructor : Word := 0

inductive TssCall where
  | tssCreate (destructor : Word)
  | tssDelete (key : Word)
  | tssGet (key : Word)
  | tssSet (key value : Word)
  | thrdExit

inductive TssPlace where
  | idle
  | claim (destructor : Word) (slot : Nat)
  | store (destructor : Word) (slot : Nat)
  | clearUsed (slot : Nat)
  | clearDestructor (slot : Nat)
  | checkGet (slot : Nat)
  | read (slot : Nat)
  | checkSet (slot : Nat) (value : Word)
  | write (slot : Nat) (value : Word)
  deriving DecidableEq

/-- Where a thread is in `thrd_exit`, with the variables of its loops. -/
inductive ExitPlace where
  | running
  | used (iteration slot more : Nat)
  | destructor (iteration slot more : Nat)
  | value (iteration slot more : Nat)
  | call (iteration slot more : Nat) (target : Word)
  /-- In a destructor, which may make calls of its own. -/
  | destructing (iteration slot more : Nat)
  | exited
  deriving DecidableEq

/-- The slot after this one, or the next iteration, or the end. -/
def ExitPlace.next (iteration slot more : Nat) : ExitPlace :=
  if slot + 1 < thrdKeysMax then .used iteration (slot + 1) more
  else if more = 0 then .exited
  else if iteration + 1 < tssDtorIterations then .used (iteration + 1) 0 thrdKeysMax
  else .exited

def TssCall.place : TssCall → TssPlace
  | .tssCreate destructor => .claim destructor 0
  | .tssDelete key => if thrdKeysMax < key.toNat then .idle else .clearUsed key.toNat
  | .tssGet key => if thrdKeysMax < key.toNat then .idle else .checkGet key.toNat
  | .tssSet key value => if thrdKeysMax < key.toNat then .idle else .checkSet key.toNat value
  | .thrdExit => .idle

/-- A thread: its places, and the words of its `struct thrd` from `tss` on; the one behind the array is
`marker`. -/
structure TssThread where
  call : TssPlace := .idle
  exit : ExitPlace := .running
  words : Nat → Word := fun word => if word = thrdKeysMax then thrdMarker else 0

/-- `tss_map` with what lies behind it, and the threads. -/
structure TssState (count : Nat) where
  map : Nat → Tss := fun _ => {}
  thread : Fin count → TssThread := fun _ => {}

inductive TssAction (count : Nat) where
  | call (thread : Fin count) (call : TssCall)
  | act (thread : Fin count)

namespace TssState

variable {count : Nat}

def set (state : TssState count) (thread : Fin count) (after : TssThread) : TssState count :=
  { state with thread := Function.update state.thread thread after }

def goes (state : TssState count) (thread : Fin count) (place : TssPlace) : TssState count :=
  state.set thread { state.thread thread with call := place }

def leaves (state : TssState count) (thread : Fin count) (place : ExitPlace) : TssState count :=
  state.set thread { state.thread thread with exit := place }

@[simp]
theorem goes_exit (state : TssState count) (thread other : Fin count) (place : TssPlace) :
    ((state.goes thread place).thread other).exit = (state.thread other).exit := by
  by_cases same : other = thread
  · subst same
    simp only [goes, set, Function.update_self]
  · simp only [goes, set, Function.update_of_ne same]

@[simp]
theorem goes_words (state : TssState count) (thread other : Fin count) (place : TssPlace) :
    ((state.goes thread place).thread other).words = (state.thread other).words := by
  by_cases same : other = thread
  · subst same
    simp only [goes, set, Function.update_self]
  · simp only [goes, set, Function.update_of_ne same]

@[simp]
theorem goes_call_self (state : TssState count) (thread : Fin count) (place : TssPlace) :
    ((state.goes thread place).thread thread).call = place := by
  simp only [goes, set, Function.update_self]

theorem goes_of_ne (state : TssState count) {thread other : Fin count} (place : TssPlace)
    (different : other ≠ thread) : (state.goes thread place).thread other = state.thread other :=
  Function.update_of_ne different ..

def begin (state : TssState count) (thread : Fin count) (call : TssCall) : Option (TssState count) :=
  if (state.thread thread).call = .idle then
    match (state.thread thread).exit, call with
    | .running, .thrdExit => some (state.leaves thread (.used 0 0 thrdKeysMax))
    | .running, call => some (state.goes thread call.place)
    | .destructing _ _ _, .thrdExit => none
    | .destructing _ _ _, call => some (state.goes thread call.place)
    | _, _ => none
  else none

def advanceExit (state : TssState count) (thread : Fin count) : Option (TssState count) :=
  match (state.thread thread).exit with
  | .running | .exited => none
  | .used iteration slot more =>
      some (state.leaves thread
        (if (state.map slot).used then .destructor iteration slot more
          else .next iteration slot (more - 1)))
  | .destructor iteration slot more =>
      some (state.leaves thread
        (if (state.map slot).destructor ≠ 0 then .value iteration slot more
          else .next iteration slot (more - 1)))
  | .value iteration slot more =>
      let target := (state.thread thread).words slot
      if target ≠ 0 then
        some (state.set thread { state.thread thread with
          exit := .call iteration slot more target
          words := Function.update (state.thread thread).words slot 0 })
      else some (state.leaves thread (.next iteration slot (more - 1)))
  | .call iteration slot more _ => some (state.leaves thread (.destructing iteration slot more))
  | .destructing iteration slot more => some (state.leaves thread (.next iteration slot more))

def advance (state : TssState count) (thread : Fin count) : Option (TssState count) :=
  let store (slot : Nat) (tss : Tss) (place : TssPlace) : TssState count :=
    { state.goes thread place with map := Function.update state.map slot tss }
  match (state.thread thread).call with
  | .idle => state.advanceExit thread
  | .claim destructor slot =>
      if (state.map slot).used then
        some (state.goes thread
          (if slot + 1 < thrdKeysMax then .claim destructor (slot + 1) else .idle))
      else some (store slot { state.map slot with used := true } (.store destructor slot))
  | .store destructor slot => some (store slot { state.map slot with destructor := destructor } .idle)
  | .clearUsed slot =>
      some (store slot { state.map slot with used := false } (.clearDestructor slot))
  | .clearDestructor slot => some (store slot { state.map slot with destructor := 0 } .idle)
  | .checkGet slot => some (state.goes thread (if (state.map slot).used then .read slot else .idle))
  | .read _ => some (state.goes thread .idle)
  | .checkSet slot value =>
      some (state.goes thread (if (state.map slot).used then .write slot value else .idle))
  | .write slot value =>
      some (state.set thread { state.thread thread with
        call := .idle
        words := Function.update (state.thread thread).words slot value })

def step (state : TssState count) : TssAction count → Option (TssState count)
  | .call thread call => state.begin thread call
  | .act thread => state.advance thread

end TssState

abbrev tssSystem (count : Nat) : System (TssState count) (TssAction count) where
  initial state := (∀ slot, slot < thrdKeysMax → state.map slot = {}) ∧ ∀ thread, state.thread thread = {}
  step := TssState.step

/-- What a step does to the storage, with what the call returns where it returns something. -/
inductive TssEffect (count : Nat) where
  | created (slot : Nat) (destructor : Word)
  | deleted (slot : Nat)
  | got (thread : Fin count) (slot : Nat) (value : Word)
  | stored (thread : Fin count) (slot : Nat) (value : Word)
  /-- The exit of a thread takes a value and leaves null. -/
  | took (thread : Fin count) (slot : Nat) (value : Word)
  /-- The function that is called for a value so taken. -/
  | called (slot : Nat) (destructor : Word)
  deriving DecidableEq

section

variable {count : Nat}

def TssState.effect (state : TssState count) : TssAction count → Option (TssEffect count)
  | .call thread (.tssGet key) =>
      if thrdKeysMax < key.toNat then some (.got thread key.toNat 0) else none
  | .call _ _ => none
  | .act thread =>
      match (state.thread thread).call with
      | .claim destructor slot =>
          if (state.map slot).used then none else some (.created slot destructor)
      | .clearUsed slot => some (.deleted slot)
      | .checkGet slot => if (state.map slot).used then none else some (.got thread slot 0)
      | .read slot => some (.got thread slot ((state.thread thread).words slot))
      | .write slot value => some (.stored thread slot value)
      | .store _ _ | .clearDestructor _ | .checkSet _ _ => none
      | .idle =>
          match (state.thread thread).exit with
          | .value _ slot _ =>
              if (state.thread thread).words slot ≠ 0 then
                some (.took thread slot ((state.thread thread).words slot))
              else none
          | .call _ slot _ _ => some (.called slot (state.map slot).destructor)
          | _ => none

/-- The storage together with the effects of the run so far. -/
abbrev tssRecorded (count : Nat) :
    System (TssState count × List (TssEffect count)) (TssAction count) :=
  (tssSystem count).record [] fun state action _ effects => effects ++ (state.effect action).toList

/-- Thread-specific storage as it is meant: the live keys with their destructors, and a value for each
thread and live key. -/
structure Keys (count : Nat) where
  live : Nat → Option Word := fun _ => none
  value : Fin count → Nat → Word := fun _ _ => 0

namespace Keys

def put (keys : Keys count) (thread : Fin count) (slot : Nat) (value : Word) : Keys count :=
  { keys with
    value := Function.update keys.value thread (Function.update (keys.value thread) slot value) }

def apply (keys : Keys count) : TssEffect count → Option (Keys count)
  | .created slot destructor =>
      if slot < thrdKeysMax ∧ keys.live slot = none then
        some { live := Function.update keys.live slot (some destructor)
               value := fun thread => Function.update (keys.value thread) slot 0 }
      else none
  | .deleted slot => some { keys with live := Function.update keys.live slot none }
  | .got thread slot value =>
      if value = (if (keys.live slot).isSome then keys.value thread slot else 0) then some keys else none
  | .stored thread slot value =>
      if (keys.live slot).isSome then some (keys.put thread slot value) else none
  | .took thread slot value =>
      if (keys.live slot).isSome ∧ value = keys.value thread slot then some (keys.put thread slot 0)
      else none
  | .called slot destructor => if keys.live slot = some destructor then some keys else none

def replay (effects : List (TssEffect count)) : Option (Keys count) :=
  effects.foldlM apply {}

theorem replay_append (effects more : List (TssEffect count)) {keys : Keys count}
    (replayed : replay effects = some keys) :
    replay (effects ++ more) = more.foldlM apply keys := by
  rw [replay, List.foldlM_append, ← replay, replayed]
  rfl

end Keys

def TssPlace.busy : TssPlace → Option Nat
  | .store _ slot | .clearDestructor slot | .read slot | .write slot _ => some slot
  | _ => none

def ExitPlace.busy : ExitPlace → Option Nat
  | .destructor _ slot _ | .value _ slot _ | .call _ slot _ _ => some slot
  | _ => none

def TssThread.Busy (thread : TssThread) (slot : Nat) : Prop :=
  thread.call.busy = some slot ∨ thread.exit.busy = some slot

/-- No call has the first key that is not one; a slot is taken or given back only when no thread is
between two accesses to it; and one is taken only when no thread has a value there. -/
def CleanSlots (state : TssState count) : TssAction count → Prop
  | .call _ (.tssDelete key) | .call _ (.tssGet key) | .call _ (.tssSet key _) =>
      key.toNat ≠ thrdKeysMax
  | .call _ _ => True
  | .act thread =>
      match (state.thread thread).call with
      | .claim _ slot => (state.map slot).used = false → ∀ other,
          ¬ (state.thread other).Busy slot ∧
            ((state.thread other).exit ≠ .exited → (state.thread other).words slot = 0)
      | .clearUsed slot => ∀ other, ¬ (state.thread other).Busy slot
      | _ => True

instance (thread : TssThread) (slot : Nat) : Decidable (thread.Busy slot) :=
  inferInstanceAs (Decidable (_ ∨ _))

instance (state : TssState count) (action : TssAction count) : Decidable (CleanSlots state action) := by
  unfold CleanSlots
  repeat' split
  all_goals infer_instance

end

end PicoToolkit
