import PicoToolkit.Cmsis.EventFlags
import PicoToolkit.Library.Memory

/-!
Deques: elements in a circular buffer under a spin lock, and event flags that announce space and data.
The four functions that put or get an element share their frame; each has its own critical section.
-/

namespace PicoToolkit

open Memory Transition Interleaving

def rtosDequeMarker : Word := 0x42088024

def rtosDequeSpaceAvailable : Word := 1
def rtosDequeDataAvailable : Word := 2
def rtosDequeReset : Word := 4

/-- `struct rtos_deque`, with the addresses of its atomic words, for a number of elements that is a power
of two, with all the memory for them and with event flags from `osEventFlagsNew`. -/
structure RtosDeque where
  marker : Word := rtosDequeMarker
  elementSize : Word
  elementCount : Word
  events : RtosEventflags
  buffer : Word
  waiters : Word
  power : ∃ exponent, elementCount.toNat = 2 ^ exponent
  atLeastTwo : 2 ≤ elementCount.toNat
  fits : buffer.toNat + elementCount.toNat * elementSize.toNat ≤ 2 ^ 32
  apart : waiters ≠ events.flags ∧ waiters ≠ events.waiters
  made : events.marker = rtosEventflagsMarker

inductive DequeEnd where
  | front
  | back
  deriving DecidableEq

/-- What a critical section does: it puts or gets an element at an end, or resets the deque. -/
inductive DequeSection where
  | put (side : DequeEnd) (element : List (BitVec 8))
  | get (side : DequeEnd) (element : List (BitVec 8))
  | reset
  deriving DecidableEq

/-- The positions and the memory.  The other fields are history: the critical sections that did
something, and where in memory they have copied from or to. -/
structure DequeData where
  front : Word
  back : Word
  memory : Bytes
  sections : List DequeSection
  copies : List Word

/-- A call that puts or gets an element, with the bytes at the pointer that it was given. -/
structure DequeAccess where
  puts : Bool
  side : DequeEnd
  element : Bytes
  timeout : Word
  context : Context

def modulo (x y : Word) : Word := x &&& (y - 1)

def dequeInc (elementCount value : Word) : Word := modulo (value + 1) elementCount

def dequeDec (elementCount value : Word) : Word := modulo (value + 1) elementCount

namespace RtosDeque

variable (deque : RtosDeque)

/-- `deque->buffer + (pos * deque->element_size)` -/
def slot (pos : Word) : Word := deque.buffer + pos * deque.elementSize

def dequeGet (data : DequeData) (element : Bytes) (pos : Word) : DequeData × Bytes :=
  ({ data with copies := data.copies ++ [deque.slot pos] },
    memcpy element 0 data.memory (deque.slot pos).toNat deque.elementSize.toNat)

def dequePut (data : DequeData) (element : Bytes) (pos : Word) : DequeData :=
  { data with
    memory := memcpy data.memory (deque.slot pos).toNat element 0 deque.elementSize.toNat
    copies := data.copies ++ [deque.slot pos] }

def isEmpty (data : DequeData) : Bool := decide (data.front = data.back)

def isFull (data : DequeData) : Bool :=
  decide (modulo (data.back + 1) deque.elementCount = data.front)

def bytes (element : Bytes) : List (BitVec 8) := bytesAt element 0 deque.elementSize.toNat

def record (data : DequeData) (done : DequeSection) : DequeData :=
  { data with sections := data.sections ++ [done] }

def putFront (data : DequeData) (element : Bytes) : DequeData × Bytes :=
  let front := dequeDec deque.elementCount (data.front - 1)
  (record (deque.dequePut { data with front := front } element front) (.put .front (deque.bytes element)),
    element)

def putBack (data : DequeData) (element : Bytes) : DequeData × Bytes :=
  let data := deque.dequePut data element data.back
  (record { data with back := dequeInc deque.elementCount data.back } (.put .back (deque.bytes element)), element)

def getFront (data : DequeData) (element : Bytes) : DequeData × Bytes :=
  let (data, element) := deque.dequeGet data element data.front
  (record { data with front := dequeInc deque.elementCount data.front } (.get .front (deque.bytes element)), element)

def getBack (data : DequeData) (element : Bytes) : DequeData × Bytes :=
  let (data, element) := deque.dequeGet data element data.back
  let back := dequeDec deque.elementCount data.back
  let (data, element) := deque.dequeGet { data with back := back } element back
  (record data (.get .back (deque.bytes element)), element)

def blocks (access : DequeAccess) (data : DequeData) : Bool :=
  if access.puts then deque.isFull data else isEmpty data

def transfer (access : DequeAccess) (data : DequeData) : DequeData × Bytes :=
  match access.puts, access.side with
  | true, .front => deque.putFront data access.element
  | true, .back => deque.putBack data access.element
  | false, .front => deque.getFront data access.element
  | false, .back => deque.getBack data access.element

def resetPositions (data : DequeData) : DequeData :=
  record { data with front := 0, back := 0 } .reset

end RtosDeque

namespace DequeAccess

def awaits (access : DequeAccess) : Word :=
  if access.puts then rtosDequeSpaceAvailable else rtosDequeDataAvailable

def kicks (access : DequeAccess) : Word :=
  if access.puts then rtosDequeDataAvailable else rtosDequeSpaceAvailable

def wish (access : DequeAccess) : FlagsWish where
  flags := access.awaits ||| rtosDequeReset
  options := osFlagsNoClear

end DequeAccess

/-- Where a call is: at its check for a reset, the increment of the waiters, its critical section, the wait
for a flag, the clearing of the flag, the decrement of the waiters after a failure or after its critical
section, its announcement, or at its end. -/
inductive DequePlace where
  | check (access : DequeAccess)
  | arrive (access : DequeAccess)
  | look (access : DequeAccess)
  | wait (access : DequeAccess) (place : WaitPlace access.wish)
  | clear (access : DequeAccess)
  | leave (access : DequeAccess) (status : Word)
  | finish (access : DequeAccess) (element : Bytes)
  | kick (access : DequeAccess) (element : Bytes) (place : SetPlace)
  | done (access : DequeAccess) (element : Bytes) (status : Word)
  | threadExit
  | resetSet (place : SetPlace)
  | resetDrain
  | resetPositions
  | resetClear
  | resetDone (status : Word)

section Functions

variable (deque : RtosDeque)

namespace DequePlace

/-- `flags & osFlagsError` -/
def failed (flags : Word) : Bool := decide (flags &&& osFlagsError ≠ 0)

def afterCheck (access : DequeAccess) : Unit ⊕ Word → DequePlace
  | .inl () => .check access
  | .inr flags =>
      if flags &&& (rtosDequeReset ||| osFlagsError) ≠ 0 then
        if flags &&& rtosDequeReset ≠ 0 then
          .done access access.element OsStatus.osErrorResource.code
        else .done access access.element flags
      else .arrive access

def afterClear (access : DequeAccess) : Unit ⊕ Word → DequePlace
  | .inl () => .clear access
  | .inr flags =>
      if failed flags then .leave access flags
      else if flags &&& rtosDequeReset ≠ 0 then .leave access OsStatus.osErrorResource.code
      else .look access

def afterWait (access : DequeAccess) : WaitPlace access.wish ⊕ Option Word → DequePlace
  | .inl place => .wait access place
  | .inr none => .threadExit
  | .inr (some flags) =>
      if failed flags then .leave access flags
      else afterClear access (osEventFlagsClearStart deque.events access.awaits)

def afterKick (access : DequeAccess) (element : Bytes) : SetPlace ⊕ Word → DequePlace
  | .inl place => .kick access element place
  | .inr flags => .done access element (if failed flags then flags else OsStatus.osOK.code)

def afterResetSet : SetPlace ⊕ Word → DequePlace
  | .inl place => .resetSet place
  | .inr flags => if failed flags then .resetDone flags else .resetDrain

def afterResetClear : Unit ⊕ Word → DequePlace
  | .inl () => .resetClear
  | .inr flags => .resetDone (if failed flags then flags else OsStatus.osOK.code)

end DequePlace

open DequePlace

def dequeAccessStart (access : DequeAccess) : DequePlace :=
  if osKernelContextIsValid true access.timeout access.context ≠ .osOK then
    .done access access.element (osKernelContextIsValid true access.timeout access.context).code
  else if osIsResourceValid deque.marker rtosDequeMarker ≠ .osOK then
    .done access access.element (osIsResourceValid deque.marker rtosDequeMarker).code
  else afterCheck access (osEventFlagsGetStart deque.events)

def osDequePutFrontStart (element : Bytes) (timeout : Word) (context : Context) : DequePlace :=
  dequeAccessStart deque ⟨true, .front, element, timeout, context⟩

def osDequePutBackStart (element : Bytes) (timeout : Word) (context : Context) : DequePlace :=
  dequeAccessStart deque ⟨true, .back, element, timeout, context⟩

def osDequeGetFrontStart (element : Bytes) (timeout : Word) (context : Context) : DequePlace :=
  dequeAccessStart deque ⟨false, .front, element, timeout, context⟩

def osDequeGetBackStart (element : Bytes) (timeout : Word) (context : Context) : DequePlace :=
  dequeAccessStart deque ⟨false, .back, element, timeout, context⟩

def osDequeResetStart (context : Context) : DequePlace :=
  if osKernelContextIsValid false 0 context ≠ .osOK then
    .resetDone (osKernelContextIsValid false 0 context).code
  else if osIsResourceValid deque.marker rtosDequeMarker ≠ .osOK then
    .resetDone (osIsResourceValid deque.marker rtosDequeMarker).code
  else afterResetSet (osEventFlagsSetStart deque.events rtosDequeReset)

def dequeOp : DequePlace → Option (ThreadOp DequeData DequePlace)
  | .check access => some ((osEventFlagsGet deque.events ()).map (afterCheck access))
  | .arrive access => some <| .word deque.waiters fun waiters => (waiters + 1, .look access)
  | .look access => some <| .data fun data =>
      if deque.blocks access data then
        (data, afterWait deque access
          (osEventFlagsWaitStart deque.events access.wish access.timeout access.context))
      else ((deque.transfer access data).1, .finish access (deque.transfer access data).2)
  | .wait access place =>
      some ((osEventFlagsWait deque.events access.wish access.timeout place).map
        (afterWait deque access))
  | .clear access =>
      some ((osEventFlagsClear deque.events access.awaits ()).map (afterClear access))
  | .leave access status => some <| .word deque.waiters fun waiters =>
      (waiters - 1, .done access access.element status)
  | .finish access element => some <| .word deque.waiters fun waiters =>
      (waiters - 1, afterKick access element (osEventFlagsSetStart deque.events access.kicks))
  | .kick access element place =>
      some ((osEventFlagsSet deque.events access.kicks place).map (afterKick access element))
  | .resetSet place =>
      some ((osEventFlagsSet deque.events rtosDequeReset place).map afterResetSet)
  | .resetDrain => some <| .word deque.waiters fun waiters =>
      (waiters, if waiters ≠ 0 then .resetDrain else .resetPositions)
  | .resetPositions => some <| .data fun data =>
      (RtosDeque.resetPositions data, afterResetClear (osEventFlagsClearStart deque.events
        (rtosDequeReset ||| rtosDequeDataAvailable ||| rtosDequeSpaceAvailable)))
  | .resetClear => some ((osEventFlagsClear deque.events
      (rtosDequeReset ||| rtosDequeDataAvailable ||| rtosDequeSpaceAvailable) ()).map afterResetClear)
  | .done _ _ _ | .threadExit | .resetDone _ => none

end Functions

inductive DequeCall where
  | osDequePutFront (element : Bytes) (timeout : Word)
  | osDequePutBack (element : Bytes) (timeout : Word)
  | osDequeGetFront (element : Bytes) (timeout : Word)
  | osDequeGetBack (element : Bytes) (timeout : Word)
  | osDequeReset

/-- The calls of a deque, less those that return at once because they were given a null pointer.  While a
reset waits for the other calls to leave, it lowers the priority of its thread and yields. -/
def dequeProgram (deque : RtosDeque) : ThreadProgram DequeData DequePlace DequeCall where
  enter
    | (context, .osDequePutFront element timeout) =>
        osDequePutFrontStart deque element timeout context
    | (context, .osDequePutBack element timeout) => osDequePutBackStart deque element timeout context
    | (context, .osDequeGetFront element timeout) =>
        osDequeGetFrontStart deque element timeout context
    | (context, .osDequeGetBack element timeout) => osDequeGetBackStart deque element timeout context
    | (context, .osDequeReset) => osDequeResetStart deque context
  op := dequeOp deque
  callsBack
    | .resetDrain | .resetPositions => true
    | _ => false

def RtosDeque.cells (deque : RtosDeque) (address : Word) : Bool :=
  decide (address ∈ [deque.events.flags, deque.events.waiters, deque.waiters])

/-- `osDequeNew` sets everything but the number of waiters, whatever is in memory. -/
def RtosDeque.initialMemory (deque : RtosDeque) (stale : Word) (address : Word) : Word :=
  if address = deque.waiters then stale else 0

def RtosDeque.initialData (_ : RtosDeque) (memory : Bytes) : DequeData where
  front := 0
  back := 0
  memory := memory
  sections := []
  copies := []

abbrev dequeSystem (cores : Nat) [NeZero cores] (deque : RtosDeque) (stale : Word)
    (memory : Bytes) : System (Machine cores DequeData DequePlace) (Label cores DequeCall) :=
  machineSystem (dequeProgram deque) deque.cells (deque.initialMemory stale) (deque.initialData memory)

theorem confined_dequeProgram (deque : RtosDeque) : Confined deque.cells (dequeProgram deque) := by
  constructor
  · intro place address act isNext
    suffices inside : address = deque.events.flags ∨ address = deque.events.waiters ∨
        address = deque.waiters by
      simp only [RtosDeque.cells, List.mem_cons, List.not_mem_nil, or_false, decide_eq_true_eq]
      exact inside
    cases place with
    | kick access element place | resetSet place =>
        cases place with
        | fetchOr => exact Or.inl (Op.word.inj (Option.some_inj.mp isNext)).1.symm
        | wake prevFlags => cases isNext
    | wait access place =>
        cases place with
        | enter | leave exit =>
            exact Or.inr (Or.inl (Op.word.inj (Option.some_inj.mp isNext)).1.symm)
        | load | consume => exact Or.inl (Op.word.inj (Option.some_inj.mp isNext)).1.symm
        | wait expected => cases isNext
    | check access | clear access | resetClear =>
        exact Or.inl (Op.word.inj (Option.some_inj.mp isNext)).1.symm
    | arrive access | leave access status | finish access element | resetDrain =>
        exact Or.inr (Or.inr (Op.word.inj (Option.some_inj.mp isNext)).1.symm)
    | _ => cases isNext
  · intro place futex value flags resume isNext
    cases place with
    | kick access element place | resetSet place =>
        cases place with
        | _ => cases isNext
    | wait access place =>
        cases place with
        | _ => cases isNext
    | _ => cases isNext

end PicoToolkit
