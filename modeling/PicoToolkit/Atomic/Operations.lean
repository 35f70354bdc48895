import PicoToolkit.Scheduler.State

/-!
The atomic functions by what they do between `__atomic_lock` and `__atomic_unlock`: loads of the
variable, and at most one store, which comes last.
-/

namespace PicoToolkit.Atomic

inductive Width where
  | one
  | two
  | four
  | eight
  deriving DecidableEq

def Width.bytes : Width → Nat
  | .one => 1
  | .two => 2
  | .four => 4
  | .eight => 8

abbrev Width.bits (width : Width) : Nat := 8 * width.bytes

/-- What a function returns, with what it leaves in `*expected` if it has such an argument. -/
inductive Outcome (Value : Type) where
  | returned (value : Value)
  | compared (result : Bool) (expected : Value)
  | nothing
  deriving DecidableEq

inductive Body (Value : Type) where
  | load (next : Value → Body Value)
  | store (value : Value) (outcome : Outcome Value)
  | done (outcome : Outcome Value)

def Body.run {Value : Type} (value : Value) : Body Value → Outcome Value × Value
  | .load next => (next value).run value
  | .store stored outcome => (outcome, stored)
  | .done outcome => (outcome, value)

section

variable {Value : Type}

def atomicFetch (operate : Value → Value → Value) (val : Value) : Body Value :=
  .load fun result => .load fun value => .store (operate value val) (.returned result)

def atomicExchange (val : Value) : Body Value :=
  .load fun result => .store val (.returned result)

def atomicCompareExchange [DecidableEq Value] (expected desired : Value) : Body Value :=
  .load fun value =>
    if value = expected then .store desired (.compared true expected)
    else .load fun value => .done (.compared false value)

end

def atomicFetchAdd1 (val : BitVec 8) : Body (BitVec 8) := atomicFetch (· + ·) val

def atomicFetchSub1 (val : BitVec 8) : Body (BitVec 8) := atomicFetch (· - ·) val

def atomicFetchAnd1 (val : BitVec 8) : Body (BitVec 8) := atomicFetch (· &&& ·) val

def atomicFetchOr1 (val : BitVec 8) : Body (BitVec 8) := atomicFetch (· ||| ·) val

def atomicExchange1 (val : BitVec 8) : Body (BitVec 8) := atomicExchange val

def atomicCompareExchange1 (expected desired : BitVec 8) : Body (BitVec 8) :=
  atomicCompareExchange expected desired

def atomicFetchAdd2 (val : BitVec 16) : Body (BitVec 16) := atomicFetch (· + ·) val

def atomicFetchSub2 (val : BitVec 16) : Body (BitVec 16) := atomicFetch (· - ·) val

def atomicFetchAnd2 (val : BitVec 16) : Body (BitVec 16) := atomicFetch (· &&& ·) val

def atomicFetchOr2 (val : BitVec 16) : Body (BitVec 16) := atomicFetch (· ||| ·) val

def atomicExchange2 (val : BitVec 16) : Body (BitVec 16) := atomicExchange val

def atomicCompareExchange2 (expected desired : BitVec 16) : Body (BitVec 16) :=
  atomicCompareExchange expected desired

def atomicFetchAdd4 (val : BitVec 32) : Body (BitVec 32) := atomicFetch (· + ·) val

def atomicFetchSub4 (val : BitVec 32) : Body (BitVec 32) := atomicFetch (· - ·) val

def atomicFetchAnd4 (val : BitVec 32) : Body (BitVec 32) := atomicFetch (· &&& ·) val

def atomicFetchOr4 (val : BitVec 32) : Body (BitVec 32) := atomicFetch (· ||| ·) val

def atomicExchange4 (val : BitVec 32) : Body (BitVec 32) := atomicExchange val

def atomicCompareExchange4 (expected desired : BitVec 32) : Body (BitVec 32) :=
  atomicCompareExchange expected desired

def atomicFetchAdd8 (val : BitVec 64) : Body (BitVec 64) := atomicFetch (· + ·) val

def atomicFetchSub8 (val : BitVec 64) : Body (BitVec 64) := atomicFetch (· - ·) val

def atomicFetchAnd8 (val : BitVec 64) : Body (BitVec 64) := atomicFetch (· &&& ·) val

def atomicFetchOr8 (val : BitVec 64) : Body (BitVec 64) := atomicFetch (· ||| ·) val

def atomicExchange8 (val : BitVec 64) : Body (BitVec 64) := atomicExchange val

def atomicCompareExchange8 (expected desired : BitVec 64) : Body (BitVec 64) :=
  atomicCompareExchange expected desired

def atomicLoad8 : Body (BitVec 64) :=
  .load fun value =>
    let result : BitVec 32 := value.setWidth 32
    .done (.returned (result.setWidth 64))

def atomicStore8 (val : BitVec 64) : Body (BitVec 64) := .store val .nothing

/-- `bool` variables, by the byte that holds them. -/
def atomicTestAndSetM0 : Body (BitVec 8) :=
  .load fun result => .store 1 (.returned result)

def atomicClearM0 : Body (BitVec 8) := .store 0 .nothing

inductive Operation (Value : Type) where
  | fetchAdd (val : Value)
  | fetchSub (val : Value)
  | fetchAnd (val : Value)
  | fetchOr (val : Value)
  | exchange (val : Value)
  | compareExchange (expected desired : Value)
  deriving DecidableEq

def Operation.body : (width : Width) → Operation (BitVec width.bits) → Body (BitVec width.bits)
  | .one, .fetchAdd val => atomicFetchAdd1 val
  | .one, .fetchSub val => atomicFetchSub1 val
  | .one, .fetchAnd val => atomicFetchAnd1 val
  | .one, .fetchOr val => atomicFetchOr1 val
  | .one, .exchange val => atomicExchange1 val
  | .one, .compareExchange expected desired => atomicCompareExchange1 expected desired
  | .two, .fetchAdd val => atomicFetchAdd2 val
  | .two, .fetchSub val => atomicFetchSub2 val
  | .two, .fetchAnd val => atomicFetchAnd2 val
  | .two, .fetchOr val => atomicFetchOr2 val
  | .two, .exchange val => atomicExchange2 val
  | .two, .compareExchange expected desired => atomicCompareExchange2 expected desired
  | .four, .fetchAdd val => atomicFetchAdd4 val
  | .four, .fetchSub val => atomicFetchSub4 val
  | .four, .fetchAnd val => atomicFetchAnd4 val
  | .four, .fetchOr val => atomicFetchOr4 val
  | .four, .exchange val => atomicExchange4 val
  | .four, .compareExchange expected desired => atomicCompareExchange4 expected desired
  | .eight, .fetchAdd val => atomicFetchAdd8 val
  | .eight, .fetchSub val => atomicFetchSub8 val
  | .eight, .fetchAnd val => atomicFetchAnd8 val
  | .eight, .fetchOr val => atomicFetchOr8 val
  | .eight, .exchange val => atomicExchange8 val
  | .eight, .compareExchange expected desired => atomicCompareExchange8 expected desired

def Operation.effect {bits : Nat} (value : BitVec bits) :
    Operation (BitVec bits) → Outcome (BitVec bits) × BitVec bits
  | .fetchAdd val => (.returned value, value + val)
  | .fetchSub val => (.returned value, value - val)
  | .fetchAnd val => (.returned value, value &&& val)
  | .fetchOr val => (.returned value, value ||| val)
  | .exchange val => (.returned value, val)
  | .compareExchange expected desired =>
      if value = expected then (.compared true expected, desired)
      else (.compared false value, value)

theorem atomicCompareExchange_run {Value : Type} [DecidableEq Value]
    (value expected desired : Value) :
    (atomicCompareExchange expected desired).run value =
      if value = expected then (.compared true expected, desired)
      else (.compared false value, value) := by
  rw [atomicCompareExchange, Body.run]
  split
  · rfl
  · rfl

theorem Operation.body_run (width : Width) (operation : Operation (BitVec width.bits))
    (value : BitVec width.bits) : (operation.body width).run value = operation.effect value := by
  cases operation with
  | compareExchange expected desired =>
      cases width with
      | _ => exact atomicCompareExchange_run value expected desired
  | _ =>
      cases width with
      | _ => rfl

end PicoToolkit.Atomic
