import PicoToolkit.Threads.Abstraction

/-!
Event flags: the loop of `osEventFlagsWait`, which tests the flags that it has loaded and takes them
away in a later step, and the functions that set, clear and read the flags.
-/

namespace PicoToolkit

open Transition Interleaving

def rtosEventflagsMarker : Word := 0x42055024

structure RtosEventflags where
  marker : Word := rtosEventflagsMarker
  flags : Word
  waiters : Word
  futex : Word
  apart : flags ≠ waiters

def osFlagsWaitAll : Word := 1
def osFlagsNoClear : Word := 2
def osFlagsError : Word := 0x80000000
def osFlagsErrorResource : Word := 0xfffffffd
def osFlagsErrorParameter : Word := 0xfffffffc

structure FlagsWish where
  flags : Word
  options : Word
  deriving DecidableEq

namespace FlagsWish

/-- `osFlagsWaitAll`: all of the flags, else any of them. -/
def waitsAll (wish : FlagsWish) : Bool := decide (wish.options &&& osFlagsWaitAll ≠ 0)

def clears (wish : FlagsWish) : Bool := decide (wish.options &&& osFlagsNoClear = 0)

def satisfied (wish : FlagsWish) (prevFlags : Word) : Bool :=
  if wish.waitsAll then decide (prevFlags &&& wish.flags = wish.flags)
  else decide (prevFlags &&& wish.flags ≠ 0)

def clear (wish : FlagsWish) : Word := if wish.clears then ~~~wish.flags else 0xffffffff

end FlagsWish

inductive WaitExit where
  | consume
  | resource
  | timeout
  | error
  | threadExit
  deriving DecidableEq

/-- The increment of the waiters, the load of the flags, the decrement of the waiters, the final
`atomic_fetch_and`, and the wait for a change of flags that are not the wished ones. -/
inductive WaitPlace (wish : FlagsWish) where
  | enter
  | load
  | leave (exit : WaitExit)
  | consume
  | wait (expected : { prevFlags : Word // wish.satisfied prevFlags = false })
  deriving DecidableEq

inductive SetPlace where
  | fetchOr
  | wake (prevFlags : Word)
  deriving DecidableEq

variable {Data Place : Type}

section Functions

variable (eventflags : RtosEventflags)

def osEventFlagsSetStart (flags : Word) : SetPlace ⊕ Word :=
  if flags &&& osFlagsError ≠ 0 then .inr osFlagsErrorParameter
  else if osIsResourceValid eventflags.marker rtosEventflagsMarker ≠ .osOK then
    .inr osFlagsErrorParameter
  else .inl .fetchOr

def osEventFlagsSet (flags : Word) : SetPlace → ThreadOp Data (SetPlace ⊕ Word)
  | .fetchOr => .word eventflags.flags fun prevFlags =>
      (prevFlags ||| flags,
        if prevFlags &&& flags ≠ flags then .inl (.wake prevFlags) else .inr prevFlags)
  | .wake prevFlags => .service (.wake eventflags.futex true) fun status =>
      .inr (if status.negative then osFlagsError else prevFlags ||| flags)

def osEventFlagsClearStart (flags : Word) : Unit ⊕ Word :=
  if flags &&& osFlagsError ≠ 0 then .inr osFlagsErrorParameter
  else if osIsResourceValid eventflags.marker rtosEventflagsMarker ≠ .osOK then
    .inr osFlagsErrorParameter
  else .inl ()

def osEventFlagsClear (flags : Word) : Unit → ThreadOp Data (Unit ⊕ Word)
  | () => .word eventflags.flags fun prevFlags => (prevFlags &&& ~~~flags, .inr prevFlags)

def osEventFlagsGetStart : Unit ⊕ Word :=
  if osIsResourceValid eventflags.marker rtosEventflagsMarker ≠ .osOK then .inr 0 else .inl ()

def osEventFlagsGet : Unit → ThreadOp Data (Unit ⊕ Word)
  | () => .word eventflags.flags fun flags => (flags, .inr flags)

def osEventFlagsWaitStart (wish : FlagsWish) (timeout : Word) (context : Context) :
    WaitPlace wish ⊕ Option Word :=
  if wish.flags &&& osFlagsError ≠ 0 then .inr (some osFlagsErrorParameter)
  else if osKernelContextIsValid true timeout context ≠ .osOK then
    .inr (some (osKernelContextIsValid true timeout context).code)
  else if osIsResourceValid eventflags.marker rtosEventflagsMarker ≠ .osOK then
    .inr (some (osIsResourceValid eventflags.marker rtosEventflagsMarker).code)
  else .inl .enter

/-- What follows the decrement; after `osThreadExit` nothing does. -/
def WaitExit.next {wish : FlagsWish} : WaitExit → WaitPlace wish ⊕ Option Word
  | .consume => .inl .consume
  | .resource => .inr (some osFlagsErrorResource)
  | .timeout => .inr (some OsStatus.osErrorTimeout.code)
  | .error => .inr (some OsStatus.osError.code)
  | .threadExit => .inr none

def osEventFlagsWait (wish : FlagsWish) (timeout : Word) :
    WaitPlace wish → ThreadOp Data (WaitPlace wish ⊕ Option Word)
  | .enter => .word eventflags.waiters fun waiters => (waiters + 1, .inl .load)
  | .load => .word eventflags.flags fun prevFlags =>
      (prevFlags, .inl <|
        match found : wish.satisfied prevFlags with
        | true => .leave .consume
        | false =>
            if timeout = 0 then .leave .resource
            else if prevFlags &&& osFlagsError ≠ 0 then .leave .threadExit
            else .wait ⟨prevFlags, found⟩)
  | .leave exit => .word eventflags.waiters fun waiters => (waiters - 1, exit.next)
  | .consume => .word eventflags.flags fun flags => (flags &&& wish.clear, .inr (some flags))
  | .wait expected => .service (.wait eventflags.futex expected timeout) fun status =>
      .inl <|
        if status.negative then
          if status = .error .etimedout ∨ status = .error .ecanceled then .leave .timeout
          else .leave .error
        else .load

end Functions

inductive EventFlagsCall where
  | osEventFlagsSet (flags : Word)
  | osEventFlagsClear (flags : Word)
  | osEventFlagsGet
  | osEventFlagsWait (wish : FlagsWish) (timeout : Word)

/-- Where a call is in its function, or what it has returned; a call that sets flags keeps those that it
has turned on. -/
inductive EventFlagsPlace where
  | set (flags turnedOn : Word) (place : SetPlace ⊕ Word)
  | clear (flags : Word) (place : Unit ⊕ Word)
  | get (place : Unit ⊕ Word)
  | wait (wish : FlagsWish) (timeout : Word) (place : WaitPlace wish ⊕ Option Word)
  deriving DecidableEq

def SetPlace.turnedOn (flags turnedOn : Word) : SetPlace ⊕ Word → Word
  | .inl (.wake prevFlags) => flags &&& ~~~prevFlags
  | _ => turnedOn

def eventFlagsProgram (eventflags : RtosEventflags) :
    ThreadProgram Unit EventFlagsPlace EventFlagsCall where
  enter
    | (_, .osEventFlagsSet flags) => .set flags 0 (osEventFlagsSetStart eventflags flags)
    | (_, .osEventFlagsClear flags) => .clear flags (osEventFlagsClearStart eventflags flags)
    | (_, .osEventFlagsGet) => .get (osEventFlagsGetStart eventflags)
    | (context, .osEventFlagsWait wish timeout) =>
        .wait wish timeout (osEventFlagsWaitStart eventflags wish timeout context)
  op
    | .set flags turnedOn (.inl place) =>
        some ((osEventFlagsSet eventflags flags place).map fun next =>
          .set flags (SetPlace.turnedOn flags turnedOn next) next)
    | .clear flags (.inl place) =>
        some ((osEventFlagsClear eventflags flags place).map (.clear flags))
    | .get (.inl place) => some ((osEventFlagsGet eventflags place).map .get)
    | .wait wish timeout (.inl place) =>
        some ((osEventFlagsWait eventflags wish timeout place).map (.wait wish timeout))
    | _ => none

def RtosEventflags.cells (eventflags : RtosEventflags) (address : Word) : Bool :=
  decide (address ∈ [eventflags.flags, eventflags.waiters])

/-- Event flags as `osEventFlagsNew` leaves them, on a system with any number of cores. -/
abbrev eventFlagsSystem (cores : Nat) [NeZero cores] (eventflags : RtosEventflags) :
    System (Machine cores Unit EventFlagsPlace) (Label cores EventFlagsCall) :=
  machineSystem (eventFlagsProgram eventflags) eventflags.cells (fun _ => 0) ()

theorem RtosEventflags.cells_flags (eventflags : RtosEventflags) :
    eventflags.cells eventflags.flags = true := by
  simp [RtosEventflags.cells]

theorem RtosEventflags.cells_waiters (eventflags : RtosEventflags) :
    eventflags.cells eventflags.waiters = true := by
  simp [RtosEventflags.cells]

theorem confined_eventFlagsProgram (eventflags : RtosEventflags) :
    Confined eventflags.cells (eventFlagsProgram eventflags) := by
  constructor
  · intro place address act isNext
    rcases place with ⟨_, _, (_ | _) | _⟩ | ⟨_, _ | _⟩ | (_ | _) | ⟨_, _, (_ | _ | _ | _ | _) | _⟩
    all_goals
      cases isNext
      try first
        | exact eventflags.cells_flags
        | exact eventflags.cells_waiters
  · intro place futex value flags resume isNext
    rcases place with ⟨_, _, (_ | _) | _⟩ | ⟨_, _ | _⟩ | (_ | _) | ⟨_, _, (_ | _ | _ | _ | _) | _⟩
    all_goals cases isNext

section Flags

variable {wish : FlagsWish} {flags other mask : Word}

theorem getLsbD_of_and_eq (all : flags &&& other = other) {bit : Nat} (isFlag : other.getLsbD bit) :
    flags.getLsbD bit := by
  rw [← all, BitVec.getLsbD_and, Bool.and_eq_true] at isFlag
  exact isFlag.1

theorem or_eq_of_and_eq (all : flags &&& other = other) : flags ||| other = flags := by
  apply BitVec.eq_of_getLsbD_eq
  intro bit _
  rw [BitVec.getLsbD_or]
  cases isFlag : other.getLsbD bit with
  | false => exact Bool.or_false _
  | true => simp [getLsbD_of_and_eq all isFlag]

theorem FlagsWish.satisfied_or (holds : wish.satisfied flags) : wish.satisfied (flags ||| other) := by
  unfold satisfied at holds ⊢
  split at holds
  · rename_i all
    rw [if_pos all]
    have same := of_decide_eq_true holds
    apply decide_eq_true
    apply BitVec.eq_of_getLsbD_eq
    intro bit _
    cases isFlag : wish.flags.getLsbD bit with
    | false => simp [isFlag]
    | true => simp [isFlag, getLsbD_of_and_eq same isFlag]
  · rename_i any
    rw [if_neg any]
    apply decide_eq_true
    intro none_
    apply of_decide_eq_true holds
    apply BitVec.eq_of_getLsbD_eq
    intro bit _
    have off := congrArg (fun word => word.getLsbD bit) none_
    have zero : (0 : Word).getLsbD bit = false := BitVec.getLsbD_zero
    simp only [BitVec.getLsbD_and, BitVec.getLsbD_or, zero] at off ⊢
    cases isFlag : wish.flags.getLsbD bit with
    | false => simp
    | true =>
        simp only [isFlag, Bool.and_true, Bool.or_eq_false_iff] at off ⊢
        exact off.1

theorem FlagsWish.satisfied_of_and (holds : wish.satisfied (flags &&& mask)) :
    wish.satisfied flags := by
  have same : flags ||| (flags &&& mask) = flags := by
    apply or_eq_of_and_eq
    rw [← BitVec.and_assoc, BitVec.and_self]
  have more := @FlagsWish.satisfied_or wish _ flags holds
  rwa [BitVec.or_comm, same] at more

end Flags

def someFlags : RtosEventflags := { flags := 0x104, waiters := 0x108, futex := 0x100, apart := by decide }

end PicoToolkit
