import Mathlib.Logic.Function.Basic
import PicoToolkit.Library.Transition

/-!
Calls on several cores that use lists with a lock each.  The code of a call is a tree of operations, and what
it reads may be anything.  If the code of each call by itself takes the lock of a list before it accesses the
list, and inserts a node only into the list it belongs to, no run accesses a list without its lock.
-/

namespace Locking

open Transition

inductive Op (Key Node Effect : Type) where
  | lock (key : Key)
  | unlock (key : Key)
  | insert (key : Key) (node : Node)
  | remove (node : Node)
  | isLinked (node : Node)
  | traverse (key : Key)
  | perform (effect : Effect)

variable {Key Node Effect Value Result Other Core Entry : Type}

abbrev Op.Answer (Value : Type) : Op Key Node Effect → Type
  | .isLinked _ => Bool
  | .traverse _ => List Node
  | .perform _ => Value
  | _ => Unit

inductive Code (Key Node Effect Value Result : Type) where
  | done (result : Result)
  | step (op : Op Key Node Effect) (next : op.Answer Value → Code Key Node Effect Value Result)

namespace Code

def bind (code : Code Key Node Effect Value Result) (rest : Result → Code Key Node Effect Value Other) :
    Code Key Node Effect Value Other :=
  match code with
  | .done result => rest result
  | .step op next => .step op fun answer => (next answer).bind rest

instance : Monad (Code Key Node Effect Value) where
  pure := .done
  bind := .bind

def next : Code Key Node Effect Value Result → Option (Op Key Node Effect)
  | .done _ => none
  | .step op _ => some op

def act (op : Op Key Node Effect) : Code Key Node Effect Value (op.Answer Value) := .step op .done

def repeatWhile (code : Code Key Node Effect Value Bool) : Nat → Code Key Node Effect Value Unit
  | 0 => pure ()
  | times + 1 => do
      let again ← code
      if again then repeatWhile code times else pure ()

end Code

def Op.heldAfter (held : Option Key) : Op Key Node Effect → Option Key
  | .lock key => some key
  | .unlock _ => none
  | _ => held

def Op.touches (located : Node → Option Key) : Op Key Node Effect → Option Key
  | .insert key _ | .traverse key => some key
  | .remove node | .isLinked node => located node
  | _ => none

/-- An operation that may be the next one for a call that holds the given lock, where each node belongs to
one list; for the operations in the exception, the lock of the list is not asked for. -/
def Op.Allowed (home : Node → Key) (exempt : Op Key Node Effect → Bool) (held : Option Key)
    (op : Op Key Node Effect) : Prop :=
  match op with
  | .lock _ => held = none
  | .unlock key => held = some key
  | .insert key node => key = home node ∧ (exempt op = true ∨ held = some key)
  | .remove node | .isLinked node => exempt op = true ∨ held = some (home node)
  | .traverse key => exempt op = true ∨ held = some key
  | .perform _ => True

def Op.Possible (home : Node → Key) (op : Op Key Node Effect) (answer : op.Answer Value) : Prop :=
  match op, answer with
  | .traverse key, found => ∀ node ∈ found, home node = key
  | .lock _, _ | .unlock _, _ | .insert _ _, _ | .remove _, _ | .isLinked _, _ | .perform _, _ => True

/-- From a held lock to another one, each operation of the code is allowed, whatever it reads. -/
def Respects (home : Node → Key) (exempt : Op Key Node Effect → Bool) (after : Option Key) :
    Option Key → Code Key Node Effect Value Result → Prop
  | held, .done _ => held = after
  | held, .step op next => op.Allowed home exempt held ∧
      ∀ answer, op.Possible home answer → Respects home exempt after (op.heldAfter held) (next answer)

section Respects

variable {home : Node → Key} {exempt : Op Key Node Effect → Bool} {held middle after : Option Key}
  {code other : Code Key Node Effect Value Result} {rest : Result → Code Key Node Effect Value Other}

theorem Respects.pure (result : Result) :
    Respects home exempt held held (pure result : Code Key Node Effect Value Result) := rfl

theorem Respects.bind (first : Respects home exempt middle held code)
    (later : ∀ result, Respects home exempt after middle (rest result)) :
    Respects home exempt after held (code >>= rest) := by
  induction code generalizing held with
  | done result =>
      have same : held = middle := first
      subst same
      exact later result
  | step op next ih =>
      obtain ⟨allowed, continues⟩ := first
      exact ⟨allowed, fun answer possible => ih answer (continues answer possible)⟩

theorem Respects.lock {key : Key} {rest : Unit → Code Key Node Effect Value Other} (free : held = none)
    (later : Respects home exempt after (some key) (rest ())) :
    Respects home exempt after held (Code.act (.lock key) >>= rest) :=
  ⟨free, fun _ _ => later⟩

theorem Respects.unlock {key : Key} {rest : Unit → Code Key Node Effect Value Other}
    (isHeld : held = some key) (later : Respects home exempt after none (rest ())) :
    Respects home exempt after held (Code.act (.unlock key) >>= rest) :=
  ⟨isHeld, fun _ _ => later⟩

theorem Respects.insert {key : Key} {node : Node} (belongs : key = home node)
    (isHeld : exempt (.insert key node) = true ∨ held = some key) :
    Respects home exempt held held (Code.act (.insert key node) : Code Key Node Effect Value Unit) :=
  ⟨⟨belongs, isHeld⟩, fun _ _ => rfl⟩

theorem Respects.remove {node : Node}
    (isHeld : exempt (.remove node) = true ∨ held = some (home node)) :
    Respects home exempt held held (Code.act (.remove node) : Code Key Node Effect Value Unit) :=
  ⟨isHeld, fun _ _ => rfl⟩

theorem Respects.isLinked {node : Node}
    (isHeld : exempt (.isLinked node) = true ∨ held = some (home node)) :
    Respects home exempt held held (Code.act (.isLinked node) : Code Key Node Effect Value Bool) :=
  ⟨isHeld, fun _ _ => rfl⟩

theorem Respects.traverse {key : Key} {rest : List Node → Code Key Node Effect Value Other}
    (isHeld : exempt (.traverse key) = true ∨ held = some key)
    (later : ∀ found, (∀ node ∈ found, home node = key) →
      Respects home exempt after held (rest found)) :
    Respects home exempt after held (Code.act (.traverse key) >>= rest) :=
  ⟨isHeld, later⟩

theorem Respects.perform (effect : Effect) :
    Respects home exempt held held (Code.act (.perform effect) : Code Key Node Effect Value Value) :=
  ⟨trivial, fun _ _ => rfl⟩

theorem Respects.ite {condition : Prop} [Decidable condition]
    (yes : condition → Respects home exempt after held code)
    (no : ¬condition → Respects home exempt after held other) :
    Respects home exempt after held (if condition then code else other) := by
  by_cases holds : condition
  · rw [if_pos holds]
    exact yes holds
  · rw [if_neg holds]
    exact no holds

theorem Respects.returnOr {condition : Prop} [Decidable condition] {result : Result}
    (goesOn : Respects home exempt held held code) :
    Respects home exempt held held (if condition then Pure.pure result else code) :=
  .ite (fun _ => .pure _) fun _ => goesOn

theorem Respects.repeatWhile {code : Code Key Node Effect Value Bool}
    (once : Respects home exempt held held code) (times : Nat) :
    Respects home exempt held held (code.repeatWhile times) := by
  induction times with
  | zero => exact .pure ()
  | succ times ih => exact once.bind fun again => .ite (fun _ => ih) fun _ => .pure ()

end Respects

/-- What a call can do on a core, and which calls are those of interrupts, which stay there. -/
structure Calls (Core Key Node Effect Value Entry : Type) where
  code : Core → Entry → Code Key Node Effect Value Unit
  interrupt : Entry → Bool

structure Call (Core Key Node Effect Value Entry : Type) where
  core : Core
  entry : Entry
  held : Option Key
  code : Code Key Node Effect Value Unit

/-- An access to a list, and whether a call on the same core has held the lock of the list then. -/
structure Access (Core Key : Type) where
  core : Core
  key : Key
  locked : Bool
  deriving DecidableEq

structure State (Core Key Node Effect Value Entry : Type) where
  located : Node → Option Key
  calls : List (Call Core Key Node Effect Value Entry)
  accesses : List (Access Core Key)

/-- A new call, the next operation of a call, with what it reads, or a thread that goes on on another core. -/
inductive Action (Core Node Value Entry : Type) where
  | call (core : Core) (entry : Entry)
  | act (index : Nat) (value : Value) (found : List Node)
  | move (index : Nat) (core : Core)

variable [DecidableEq Core] [DecidableEq Key] [DecidableEq Node]

namespace State

variable (state : State Core Key Node Effect Value Entry)

def holds (core : Core) (key : Key) : Bool :=
  state.calls.any fun call => decide (call.core = core ∧ call.held = some key)

def free (key : Key) : Bool := state.calls.all fun call => decide (call.held ≠ some key)

def masked (index : Nat) (core : Core) : Bool :=
  (state.calls.eraseIdx index).any fun call => decide (call.core = core ∧ call.held ≠ none)

def answer (value : Value) (found : List Node) :
    (op : Op Key Node Effect) → Option (op.Answer Value × (Node → Option Key))
  | .lock key => if state.free key then some ((), state.located) else none
  | .unlock _ => some ((), state.located)
  | .insert key node => some ((), Function.update state.located node (some key))
  | .remove node => some ((), Function.update state.located node none)
  | .isLinked node => some ((state.located node).isSome, state.located)
  | .traverse key =>
      if found.all fun node => decide (state.located node = some key) then some (found, state.located)
      else none
  | .perform _ => some (value, state.located)

def accessed (core : Core) (op : Op Key Node Effect) : List (Access Core Key) :=
  match op.touches state.located with
  | none => []
  | some key => [⟨core, key, state.holds core key⟩]

end State

namespace Calls

variable (calls : Calls Core Key Node Effect Value Entry)

def step (state : State Core Key Node Effect Value Entry) :
    Action Core Node Value Entry → Option (State Core Key Node Effect Value Entry)
  | .call core entry => some { state with
      calls := state.calls ++ [⟨core, entry, none, calls.code core entry⟩] }
  | .act index value found =>
      state.calls[index]?.bind fun call =>
        match call.code with
        | .done _ => none
        | .step op next =>
            if state.masked index call.core then none
            else (state.answer value found op).map fun result =>
              ⟨result.2, state.calls.set index
                  { call with held := op.heldAfter call.held, code := next result.1 },
                state.accesses ++ state.accessed call.core op⟩
  | .move index core =>
      state.calls[index]?.bind fun call =>
        if call.held ≠ none ∨ calls.interrupt call.entry then none
        else some { state with calls := state.calls.set index { call with core := core } }

def system : System (State Core Key Node Effect Value Entry) (Action Core Node Value Entry) where
  initial state := state = ⟨fun _ => none, [], []⟩
  step := calls.step

end Calls

def Spared (exempt : Entry → Op Key Node Effect → Bool) (state : State Core Key Node Effect Value Entry) :
    Action Core Node Value Entry → Prop
  | .act index _ _ => ∀ call ∈ state.calls[index]?, ∀ op ∈ call.code.next,
      exempt call.entry op = true → op.touches state.located = none
  | _ => True

instance (exempt : Entry → Op Key Node Effect → Bool) (state : State Core Key Node Effect Value Entry)
    (action : Action Core Node Value Entry) : Decidable (Spared exempt state action) :=
  match action with
  | .call _ _ | .move _ _ => isTrue trivial
  | .act index _ _ => inferInstanceAs (Decidable (∀ call ∈ state.calls[index]?, ∀ op ∈ call.code.next,
      exempt call.entry op = true → op.touches state.located = none))

/-- Nodes are in the list they belong to, each call goes on as it should, and all accesses have been locked. -/
structure Disciplined (home : Node → Key) (exempt : Entry → Op Key Node Effect → Bool)
    (state : State Core Key Node Effect Value Entry) : Prop where
  located : ∀ node key, state.located node = some key → key = home node
  calls : ∀ call ∈ state.calls, Respects home (exempt call.entry) none call.held call.code
  locked : ∀ access ∈ state.accesses, access.locked = true

section Discipline

variable {calls : Calls Core Key Node Effect Value Entry} {home : Node → Key}
  {exempt : Entry → Op Key Node Effect → Bool} {state next : State Core Key Node Effect Value Entry}
  {call : Call Core Key Node Effect Value Entry} {op : Op Key Node Effect} {index : Nat}

theorem step_act {value : Value} {found : List Node}
    (moved : calls.step state (.act index value found) = some next) :
    ∃ call op rest answer located, state.calls[index]? = some call ∧ call.code = .step op rest ∧
      state.answer value found op = some (answer, located) ∧
      next = ⟨located,
        state.calls.set index { call with held := op.heldAfter call.held, code := rest answer },
        state.accesses ++ state.accessed call.core op⟩ := by
  obtain ⟨call, found_, moved⟩ := Option.bind_eq_some_iff.mp moved
  cases code : call.code with
  | done result =>
      rw [code] at moved
      cases moved
  | step op rest =>
      rw [code] at moved
      obtain ⟨_, moved⟩ := Option.ite_none_left_eq_some.mp moved
      obtain ⟨⟨answer, located⟩, answers, rfl⟩ := Option.map_eq_some_iff.mp moved
      exact ⟨call, op, rest, answer, located, found_, code, answers, rfl⟩

omit [DecidableEq Core] in
theorem answer_sound {value : Value} {found : List Node} {answer : op.Answer Value}
    {located : Node → Option Key} {held : Option Key} {exempt : Op Key Node Effect → Bool}
    (allowed : op.Allowed home exempt held)
    (inHome : ∀ node key, state.located node = some key → key = home node)
    (answers : state.answer value found op = some (answer, located)) :
    op.Possible home answer ∧ ∀ node key, located node = some key → key = home node := by
  cases op with
  | lock key =>
      obtain ⟨_, answers⟩ := Option.ite_none_right_eq_some.mp answers
      cases answers
      exact ⟨trivial, inHome⟩
  | unlock key | isLinked node | perform effect =>
      cases answers
      exact ⟨trivial, inHome⟩
  | insert key node =>
      cases answers
      refine ⟨trivial, fun other where_ isThere => ?_⟩
      by_cases same : other = node
      · subst same
        rw [Function.update_self] at isThere
        exact (Option.some_inj.mp isThere).symm.trans allowed.1
      · rw [Function.update_of_ne same] at isThere
        exact inHome other where_ isThere
  | remove node =>
      cases answers
      refine ⟨trivial, fun other where_ isThere => ?_⟩
      by_cases same : other = node
      · subst same
        rw [Function.update_self] at isThere
        cases isThere
      · rw [Function.update_of_ne same] at isThere
        exact inHome other where_ isThere
  | traverse key =>
      obtain ⟨all, answers⟩ := Option.ite_none_right_eq_some.mp answers
      cases answers
      refine ⟨fun node member => ?_, inHome⟩
      exact (inHome node key (of_decide_eq_true (List.all_eq_true.mp all node member))).symm

omit [DecidableEq Core] [DecidableEq Key] [DecidableEq Node] in
theorem held_of_touches {held : Option Key} {exempt : Op Key Node Effect → Bool} {key : Key}
    (allowed : op.Allowed home exempt held)
    (inHome : ∀ node key, state.located node = some key → key = home node)
    (touches : op.touches state.located = some key) : exempt op = true ∨ held = some key := by
  cases op with
  | lock other | unlock other | perform effect => cases touches
  | insert other node =>
      cases touches
      exact allowed.2
  | traverse other =>
      cases touches
      exact allowed
  | remove node | isLinked node =>
      rw [inHome node key touches]
      exact allowed

omit [DecidableEq Node] in
theorem holds_self (found : state.calls[index]? = some call) {key : Key} (held : call.held = some key) :
    state.holds call.core key = true :=
  List.any_eq_true.mpr ⟨call, List.mem_of_getElem? found, decide_eq_true ⟨rfl, held⟩⟩

omit [DecidableEq Node] in
theorem locked_accessed (disciplined : Disciplined home exempt state)
    (found : state.calls[index]? = some call) (allowed : op.Allowed home (exempt call.entry) call.held)
    (spared : exempt call.entry op = true → op.touches state.located = none) :
    ∀ access ∈ state.accessed call.core op, access.locked = true := by
  intro access member
  rw [State.accessed] at member
  cases touches : op.touches state.located with
  | none =>
      rw [touches] at member
      cases member
  | some key =>
      rw [touches] at member
      obtain rfl := List.mem_singleton.mp member
      rcases held_of_touches allowed disciplined.located touches with isExempt | held
      · rw [spared isExempt] at touches
        cases touches
      · exact holds_self found held

theorem Disciplined.step {action : Action Core Node Value Entry}
    (respects : ∀ core entry, Respects home (exempt entry) none none (calls.code core entry))
    (disciplined : Disciplined home exempt state) (spared : Spared exempt state action)
    (moved : calls.step state action = some next) : Disciplined home exempt next := by
  cases action with
  | call core entry =>
      cases moved
      refine ⟨disciplined.located, fun call member => ?_, disciplined.locked⟩
      rcases List.mem_append.mp member with before | new
      · exact disciplined.calls call before
      · obtain rfl := List.mem_singleton.mp new
        exact respects core entry
  | move index core =>
      obtain ⟨call, found, moved⟩ := Option.bind_eq_some_iff.mp moved
      obtain ⟨_, moved⟩ := Option.ite_none_left_eq_some.mp moved
      cases moved
      refine ⟨disciplined.located, fun other member => ?_, disciplined.locked⟩
      rcases List.mem_or_eq_of_mem_set member with before | moved
      · exact disciplined.calls other before
      · subst moved
        exact disciplined.calls call (List.mem_of_getElem? found)
  | act index value found =>
      obtain ⟨call, op, rest, answer, located, isThere, code, answers, rfl⟩ := step_act moved
      have respected := disciplined.calls call (List.mem_of_getElem? isThere)
      rw [code] at respected
      obtain ⟨allowed, continues⟩ := respected
      obtain ⟨possible, inHome⟩ := answer_sound allowed disciplined.located answers
      have isNext : call.code.next = some op := by rw [code, Code.next]
      refine ⟨inHome, fun other member => ?_, fun access member => ?_⟩
      · rcases List.mem_or_eq_of_mem_set member with before | moved
        · exact disciplined.calls other before
        · subst moved
          exact continues answer possible
      · rcases List.mem_append.mp member with before | new
        · exact disciplined.locked access before
        · exact locked_accessed disciplined isThere allowed (spared call isThere op isNext) access new

theorem disciplined_of_guarded
    (respects : ∀ core entry, Respects home (exempt entry) none none (calls.code core entry))
    (reached : calls.system.Guarded (Spared exempt) state) : Disciplined home exempt state := by
  apply reached.invariant
  · intro state begins
    obtain rfl : state = ⟨fun _ => none, [], []⟩ := begins
    exact ⟨nofun, List.forall_mem_nil _, List.forall_mem_nil _⟩
  · exact fun state action next disciplined spared moved => disciplined.step respects spared moved

end Discipline

end Locking
