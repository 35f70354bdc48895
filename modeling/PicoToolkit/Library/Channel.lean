import PicoToolkit.Library.Circular
import PicoToolkit.Library.Transition

/-!
A circular buffer between one writer and one reader that run at the same time: only the writer stores
elements and the back position, only the reader stores the front position.  The calls of both ends are
trees of accesses.  If the writer stores only where it has seen room, and the reader reads only what it
has seen to be there, every run transmits the elements in order, each of them once.
-/

namespace Channel

open Circular Transition

structure Buffer (Element : Type) where
  slot : Nat → Element
  size : Nat
  front : Nat
  back : Nat

inductive Access (Element : Type) where
  | front
  | back
  | read (position : Nat)
  | write (position : Nat) (element : Element)
  | setFront (position : Nat)
  | setBack (position : Nat)

variable {Element Result Other : Type}

abbrev Access.Answer : Access Element → Type
  | .front | .back => Nat
  | .read _ => Element
  | .write _ _ | .setFront _ | .setBack _ => Unit

namespace Buffer

variable (buffer : Buffer Element)

def contents : List Element := Circular.contents buffer.slot buffer.size buffer.front buffer.back

def access : (access : Access Element) → access.Answer × Buffer Element
  | .front => (buffer.front, buffer)
  | .back => (buffer.back, buffer)
  | .read position => (buffer.slot position, buffer)
  | .write position element =>
      ((), { buffer with slot := Function.update buffer.slot position element })
  | .setFront position => ((), { buffer with front := position })
  | .setBack position => ((), { buffer with back := position })

def moved : Access Element → List Element
  | .setFront position => span buffer.slot buffer.size buffer.front
      (count buffer.size buffer.front position)
  | .setBack position => span buffer.slot buffer.size buffer.back
      (count buffer.size buffer.back position)
  | _ => []

end Buffer

/-- The code of a call; one that is not at an end of its loops goes on for ever. -/
inductive Code (Element Result : Type) where
  | done (result : Result)
  | spin
  | step (access : Access Element) (next : access.Answer → Code Element Result)

namespace Code

def bind (code : Code Element Result) (rest : Result → Code Element Other) : Code Element Other :=
  match code with
  | .done result => rest result
  | .spin => .spin
  | .step access next => .step access fun answer => (next answer).bind rest

instance : Monad (Code Element) where
  pure := .done
  bind := .bind

def act (access : Access Element) : Code Element access.Answer := .step access .done

def exec : Code Element Result → Buffer Element → Option (Result × Buffer Element)
  | .done result, buffer => some (result, buffer)
  | .spin, _ => none
  | .step access next, buffer => (next (buffer.access access).1).exec (buffer.access access).2

theorem exec_bind (code : Code Element Result) (rest : Result → Code Element Other)
    (buffer : Buffer Element) :
    (code >>= rest).exec buffer = (code.exec buffer).bind fun found =>
      (rest found.1).exec found.2 := by
  induction code generalizing buffer with
  | done result => rfl
  | spin => rfl
  | step access next ih => exact ih _ _

@[simp]
theorem exec_pure (result : Result) (buffer : Buffer Element) :
    (pure result : Code Element Result).exec buffer = some (result, buffer) :=
  rfl

end Code

/-- What the writer knows: the slots and the back, which only it stores, how much room there is at least,
and what it has sent. -/
structure Sender (Element : Type) where
  slot : Nat → Element
  back : Nat
  room : Nat
  sent : List Element

/-- The writer stores only into the room that it has seen, whatever the reader does, and it waits for ever
only if it may. -/
def Writes (size : Nat) (waits : Prop) (post : Result → Sender Element → Prop) :
    Code Element Result → Sender Element → Prop
  | .done result, sender => post result sender
  | .spin, _ => waits
  | .step .front next, sender => ∀ front < size, sender.room ≤ free size front sender.back →
      Writes size waits post (next front) { sender with room := free size front sender.back }
  | .step .back next, sender => Writes size waits post (next sender.back) sender
  | .step (.write position element) next, sender =>
      (∃ index < sender.room, position = place size sender.back index) ∧
        Writes size waits post (next ()) { sender with
          slot := Function.update sender.slot position element }
  | .step (.setBack position) next, sender =>
      ∃ length ≤ sender.room, position = place size sender.back length ∧
        Writes size waits post (next ()) { sender with
          back := position
          room := sender.room - length
          sent := sender.sent ++ span sender.slot size sender.back length }
  | .step _ _, _ => False

/-- What the reader knows: the front, which only it stores, the elements that are there at least, and what
it has received. -/
structure Receiver (Element : Type) where
  front : Nat
  elements : List Element
  received : List Element

/-- The reader reads only elements that it has seen to be there, whatever the writer does. -/
def Reads (size : Nat) (waits : Prop) (post : Result → Receiver Element → Prop) :
    Code Element Result → Receiver Element → Prop
  | .done result, receiver => post result receiver
  | .spin, _ => waits
  | .step .front next, receiver => Reads size waits post (next receiver.front) receiver
  | .step .back next, receiver => ∀ back < size, ∀ elements : List Element,
      elements.length = count size receiver.front back → receiver.elements <+: elements →
        Reads size waits post (next back) { receiver with elements := elements }
  | .step (.read position) next, receiver =>
      ∃ index, ∃ inside : index < receiver.elements.length,
        position = place size receiver.front index ∧
          Reads size waits post (next receiver.elements[index]) receiver
  | .step (.setFront position) next, receiver =>
      ∃ length ≤ receiver.elements.length, position = place size receiver.front length ∧
        Reads size waits post (next ()) {
          front := position
          elements := receiver.elements.drop length
          received := receiver.received ++ receiver.elements.take length }
  | .step _ _, _ => False

section Rules

variable {size : Nat} {waits : Prop} {post weaker : Result → Sender Element → Prop}
  {postRead weakerRead : Result → Receiver Element → Prop} {code : Code Element Result}
  {sender : Sender Element} {receiver : Receiver Element} {rest : Result → Code Element Other}

theorem Writes.mono (writes : Writes size waits post code sender)
    (weaken : ∀ result sender, post result sender → weaker result sender) :
    Writes size waits weaker code sender := by
  induction code generalizing sender with
  | done result => exact weaken result sender writes
  | spin => exact writes
  | step access next ih =>
      cases access with
      | front => exact fun front below known => ih _ (writes front below known)
      | back => exact ih _ writes
      | read position => exact writes
      | write position element => exact ⟨writes.1, ih _ writes.2⟩
      | setFront position => exact writes
      | setBack position =>
          obtain ⟨length, inside, same, later⟩ := writes
          exact ⟨length, inside, same, ih _ later⟩

theorem Writes.bind {post : Other → Sender Element → Prop}
    (writes : Writes size waits (fun result sender => Writes size waits post (rest result) sender)
      code sender) :
    Writes size waits post (code >>= rest) sender := by
  induction code generalizing sender with
  | done result => exact writes
  | spin => exact writes
  | step access next ih =>
      cases access with
      | front => exact fun front below known => ih _ (writes front below known)
      | back => exact ih _ writes
      | read position => exact writes
      | write position element => exact ⟨writes.1, ih _ writes.2⟩
      | setFront position => exact writes
      | setBack position =>
          obtain ⟨length, inside, same, later⟩ := writes
          exact ⟨length, inside, same, ih _ later⟩

theorem Reads.mono (reads : Reads size waits postRead code receiver)
    (weaken : ∀ result receiver, postRead result receiver → weakerRead result receiver) :
    Reads size waits weakerRead code receiver := by
  induction code generalizing receiver with
  | done result => exact weaken result receiver reads
  | spin => exact reads
  | step access next ih =>
      cases access with
      | front => exact ih _ reads
      | back => exact fun back below elements found known => ih _ (reads back below elements found known)
      | read position =>
          obtain ⟨index, inside, same, later⟩ := reads
          exact ⟨index, inside, same, ih _ later⟩
      | write position element => exact reads
      | setFront position =>
          obtain ⟨length, inside, same, later⟩ := reads
          exact ⟨length, inside, same, ih _ later⟩
      | setBack position => exact reads

theorem Reads.bind {postRead : Other → Receiver Element → Prop}
    (reads : Reads size waits (fun result receiver => Reads size waits postRead (rest result) receiver)
      code receiver) :
    Reads size waits postRead (code >>= rest) receiver := by
  induction code generalizing receiver with
  | done result => exact reads
  | spin => exact reads
  | step access next ih =>
      cases access with
      | front => exact ih _ reads
      | back => exact fun back below elements found known => ih _ (reads back below elements found known)
      | read position =>
          obtain ⟨index, inside, same, later⟩ := reads
          exact ⟨index, inside, same, ih _ later⟩
      | write position element => exact reads
      | setFront position =>
          obtain ⟨length, inside, same, later⟩ := reads
          exact ⟨length, inside, same, ih _ later⟩
      | setBack position => exact reads

end Rules

/-- The code of the calls of both ends.  The writer has data of its own, which its calls change. -/
structure Ends (Element Own Entry Status Request Reply : Type) where
  write : Own → Entry → Code Element (Status × Own)
  read : Request → Code Element Reply

variable {Own Entry Status Request Reply : Type}

structure Done (Entry Status Element : Type) where
  entry : Entry
  status : Status
  moved : List Element

structure Running (Entry Result Element : Type) where
  entry : Entry
  code : Code Element Result
  moved : List Element := []

structure State (Element Own Entry Status Request Reply : Type) where
  buffer : Buffer Element
  own : Own
  writer : Option (Running Entry (Status × Own) Element) := none
  reader : Option (Running Request Reply Element) := none
  written : List (Done Entry Status Element) := []
  reads : List (Done Request Reply Element) := []

inductive Action (Entry Request : Type) where
  | write (entry : Entry)
  | writer
  | read (request : Request)
  | reader

namespace State

variable (state : State Element Own Entry Status Request Reply)

def sent : List Element :=
  state.written.flatMap Done.moved ++ (state.writer.map Running.moved).getD []

def received : List Element :=
  state.reads.flatMap Done.moved ++ (state.reader.map Running.moved).getD []

def beginWrite (ends : Ends Element Own Entry Status Request Reply) (entry : Entry) :
    Option (State Element Own Entry Status Request Reply) :=
  match state.writer with
  | none => some { state with writer := some { entry := entry, code := ends.write state.own entry } }
  | some _ => none

def stepWriter : Option (State Element Own Entry Status Request Reply) :=
  match state.writer with
  | none => none
  | some running =>
      match running.code with
      | .done (status, own) => some { state with
          own := own
          writer := none
          written := state.written ++ [⟨running.entry, status, running.moved⟩] }
      | .spin => none
      | .step access next => some { state with
          buffer := (state.buffer.access access).2
          writer := some { running with
            code := next (state.buffer.access access).1
            moved := running.moved ++ state.buffer.moved access } }

def beginRead (ends : Ends Element Own Entry Status Request Reply) (request : Request) :
    Option (State Element Own Entry Status Request Reply) :=
  match state.reader with
  | none => some { state with reader := some { entry := request, code := ends.read request } }
  | some _ => none

def stepReader : Option (State Element Own Entry Status Request Reply) :=
  match state.reader with
  | none => none
  | some running =>
      match running.code with
      | .done reply => some { state with
          reader := none
          reads := state.reads ++ [⟨running.entry, reply, running.moved⟩] }
      | .spin => none
      | .step access next => some { state with
          buffer := (state.buffer.access access).2
          reader := some { running with
            code := next (state.buffer.access access).1
            moved := running.moved ++ state.buffer.moved access } }

end State

def system (ends : Ends Element Own Entry Status Request Reply) (size : Nat) (own : Own) :
    System (State Element Own Entry Status Request Reply) (Action Entry Request) where
  initial state := ∃ slot start, start < size ∧
    state = { buffer := { slot := slot, size := size, front := start, back := start }, own := own }
  step state
    | .write entry => state.beginWrite ends entry
    | .writer => state.stepWriter
    | .read request => state.beginRead ends request
    | .reader => state.stepReader

/-- What the calls of both ends guarantee: of a call of the writer, what it tells, what it leaves in the
data of the writer and what it sends; of a call of the reader, what it tells and receives; and of both,
which may wait for ever. -/
structure Promise (Element Own Entry Status Request Reply : Type) where
  sends : Own → Entry → Status → Own → List Element → Prop
  receives : Request → Reply → List Element → Prop
  waits : Own → Entry → Prop
  readerWaits : Request → Prop

structure Contract (ends : Ends Element Own Entry Status Request Reply) (size : Nat)
    (promise : Promise Element Own Entry Status Request Reply) : Prop where
  write : ∀ own entry slot, ∀ back < size,
    Writes size (promise.waits own entry)
      (fun result sender => promise.sends own entry result.1 result.2 sender.sent)
      (ends.write own entry) ⟨slot, back, 0, []⟩
  read : ∀ request, ∀ front < size,
    Reads size (promise.readerWaits request)
      (fun reply receiver => promise.receives request reply receiver.received)
      (ends.read request) ⟨front, [], []⟩

section Sound

variable {ends : Ends Element Own Entry Status Request Reply} {size : Nat} {start : Own}
  {promise : Promise Element Own Entry Status Request Reply}
  {motive : Own → List (Done Entry Status Element) → Prop}

/-- The state of a run: the positions are inside, everything sent has been received or is there, and the
calls that run keep to what they know. -/
structure Sound (size : Nat) (promise : Promise Element Own Entry Status Request Reply)
    (motive : Own → List (Done Entry Status Element) → Prop)
    (state : State Element Own Entry Status Request Reply) : Prop where
  sized : state.buffer.size = size
  front : state.buffer.front < size
  back : state.buffer.back < size
  stream : state.sent = state.received ++ state.buffer.contents
  writer : ∀ running, state.writer = some running → ∃ room,
    room ≤ free size state.buffer.front state.buffer.back ∧
      Writes size (promise.waits state.own running.entry)
        (fun result sender => promise.sends state.own running.entry result.1 result.2 sender.sent)
        running.code ⟨state.buffer.slot, state.buffer.back, room, running.moved⟩
  reader : ∀ running, state.reader = some running → ∃ elements,
    elements <+: state.buffer.contents ∧
      Reads size (promise.readerWaits running.entry)
        (fun reply receiver => promise.receives running.entry reply receiver.received)
        running.code ⟨state.buffer.front, elements, running.moved⟩
  own : motive state.own state.written
  reads : ∀ done ∈ state.reads, promise.receives done.entry done.status done.moved

variable {state next : State Element Own Entry Status Request Reply}

theorem count_place_self {position length : Nat} (below : position < size) (inside : length < size) :
    count size position (place size position length) = length := by
  have none_ : count size position position = 0 := (count_eq_zero below).mpr rfl
  have grown := count_place_back length below below (by omega)
  omega

theorem room_lt {front back room : Nat} (below : front < size) (belowBack : back < size)
    (known : room ≤ free size front back) : count size front back + room < size := by
  have bound := count_lt below belowBack
  unfold free at known
  omega

theorem Sound.writer_step {running : Running Entry (Status × Own) Element} {access : Access Element}
    {code : access.Answer → Code Element (Status × Own)}
    (sound : Sound size promise motive state) (runs : state.writer = some running)
    (isNext : running.code = .step access code) :
    Sound size promise motive { state with
      buffer := (state.buffer.access access).2
      writer := some { running with
        code := code (state.buffer.access access).1
        moved := running.moved ++ state.buffer.moved access } } := by
  obtain ⟨room, known, writes⟩ := sound.writer running runs
  have sized := sound.sized
  have below := sound.front
  have belowBack := sound.back
  have stream := sound.stream
  rw [isNext] at writes
  simp only [State.sent, State.received, runs, Option.map_some, Option.getD_some] at stream
  have roomy := room_lt below belowBack known
  cases access with
  | front =>
      refine ⟨sized, below, belowBack, ?_, ?_, sound.reader, sound.own, sound.reads⟩
      · simpa [State.sent, State.received, Buffer.moved, Buffer.access] using stream
      · intro _ isRunning
        obtain rfl := Option.some_inj.mp isRunning
        refine ⟨_, Nat.le_refl _, ?_⟩
        simpa [Buffer.moved, Buffer.access] using writes _ below known
  | back =>
      refine ⟨sized, below, belowBack, ?_, ?_, sound.reader, sound.own, sound.reads⟩
      · simpa [State.sent, State.received, Buffer.moved, Buffer.access] using stream
      · intro _ isRunning
        obtain rfl := Option.some_inj.mp isRunning
        refine ⟨room, known, ?_⟩
        rw [Writes] at writes
        simpa [Buffer.moved, Buffer.access] using writes
  | read position => exact writes.elim
  | write position element =>
      obtain ⟨⟨index, inside, rfl⟩, later⟩ := writes
      have inRoom : index < room := inside
      -- no element is where there is room
      have kept : Circular.contents (Function.update state.buffer.slot
          (place size state.buffer.back index) element) state.buffer.size state.buffer.front
          state.buffer.back = state.buffer.contents := by
        refine contents_congr fun other member => Function.update_of_ne ?_ _ _
        rw [sized] at member ⊢
        exact place_front_ne_back below belowBack member (by omega)
      refine ⟨sized, below, belowBack, ?_, ?_, ?_, sound.own, sound.reads⟩
      · simp only [State.sent, State.received, Buffer.moved, Buffer.access, Buffer.contents,
          Option.map_some, Option.getD_some, List.append_nil, kept]
        exact stream
      · intro _ isRunning
        obtain rfl := Option.some_inj.mp isRunning
        refine ⟨room, known, ?_⟩
        simpa [Buffer.moved, Buffer.access] using later
      · intro reading reads
        simp only [Buffer.access, Buffer.contents, kept]
        exact sound.reader reading reads
  | setFront position => exact writes.elim
  | setBack position =>
      obtain ⟨length, inside, rfl, later⟩ := writes
      have inRoom : length ≤ room := inside
      have more := contents_place_back state.buffer.slot length below belowBack
        (by omega)
      have counted := count_place_back length below belowBack (by omega)
      have moves : state.buffer.moved (.setBack (place size state.buffer.back length)) =
          span state.buffer.slot size state.buffer.back length := by
        rw [Buffer.moved, sized, count_place_self belowBack (by omega)]
      refine ⟨sized, below, place_lt belowBack (by omega), ?_, ?_, ?_, sound.own, sound.reads⟩
      · simp only [State.sent, State.received, Buffer.access, Buffer.contents, Option.map_some,
          Option.getD_some, moves, sized, more]
        rw [← List.append_assoc, ← List.append_assoc, stream, Buffer.contents, sized]
      · intro _ isRunning
        obtain rfl := Option.some_inj.mp isRunning
        refine ⟨room - length, ?_, ?_⟩
        · simp only [Buffer.access, free, counted]
          unfold free at known
          omega
        · simpa [moves, Buffer.access] using later
      · intro reading reads
        obtain ⟨elements, isThere, reader⟩ := sound.reader reading reads
        refine ⟨elements, ?_, reader⟩
        simp only [Buffer.access, Buffer.contents, sized, more]
        rw [Buffer.contents, sized] at isThere
        exact isThere.trans (List.prefix_append _ _)

theorem Sound.reader_step {running : Running Request Reply Element} {access : Access Element}
    {code : access.Answer → Code Element Reply} (sound : Sound size promise motive state)
    (runs : state.reader = some running) (isNext : running.code = .step access code) :
    Sound size promise motive { state with
      buffer := (state.buffer.access access).2
      reader := some { running with
        code := code (state.buffer.access access).1
        moved := running.moved ++ state.buffer.moved access } } := by
  obtain ⟨elements, isThere, reads⟩ := sound.reader running runs
  have sized := sound.sized
  have below := sound.front
  have belowBack := sound.back
  have stream := sound.stream
  rw [isNext] at reads
  simp only [State.sent, State.received, runs, Option.map_some, Option.getD_some] at stream
  have bound := isThere.length_le
  rw [Buffer.contents, sized, length_contents] at bound
  have elements_eq : elements = span state.buffer.slot size state.buffer.front elements.length := by
    have start := List.prefix_iff_eq_take.mp isThere
    rw [Buffer.contents, sized, contents_eq_span, take_span bound] at start
    exact start
  have fewer := count_lt below belowBack
  cases access with
  | front =>
      refine ⟨sized, below, belowBack, ?_, sound.writer, ?_, sound.own, sound.reads⟩
      · simpa [State.sent, State.received, Buffer.moved, Buffer.access] using stream
      · intro _ isRunning
        obtain rfl := Option.some_inj.mp isRunning
        refine ⟨elements, isThere, ?_⟩
        rw [Reads] at reads
        simpa [Buffer.moved, Buffer.access] using reads
  | back =>
      refine ⟨sized, below, belowBack, ?_, sound.writer, ?_, sound.own, sound.reads⟩
      · simpa [State.sent, State.received, Buffer.moved, Buffer.access] using stream
      · intro _ isRunning
        obtain rfl := Option.some_inj.mp isRunning
        refine ⟨state.buffer.contents, List.prefix_refl _, ?_⟩
        have length : state.buffer.contents.length =
            count size state.buffer.front state.buffer.back := by
          rw [Buffer.contents, sized, length_contents]
        simpa [Buffer.moved, Buffer.access] using reads _ belowBack _ length isThere
  | read position =>
      obtain ⟨index, inside, rfl, later⟩ := reads
      have found : elements[index] = state.buffer.slot (place size state.buffer.front index) := by
        have same := List.getElem_of_eq elements_eq inside
        rw [getElem_span] at same
        exact same
      refine ⟨sized, below, belowBack, ?_, sound.writer, ?_, sound.own, sound.reads⟩
      · simpa [State.sent, State.received, Buffer.moved, Buffer.access] using stream
      · intro _ isRunning
        obtain rfl := Option.some_inj.mp isRunning
        refine ⟨elements, isThere, ?_⟩
        simpa [Buffer.moved, Buffer.access, found] using later
  | write position element => exact reads.elim
  | setFront position =>
      obtain ⟨length, inside, rfl, later⟩ := reads
      have isRead : length ≤ elements.length := inside
      have fewerLeft := contents_place_front state.buffer.slot length below
        belowBack (by omega)
      have counted := count_place_front length below belowBack (by omega)
      have taken : elements.take length = span state.buffer.slot size state.buffer.front length := by
        rw [elements_eq, take_span inside]
      have moves : state.buffer.moved (.setFront (place size state.buffer.front length)) =
          elements.take length := by
        rw [Buffer.moved, sized, count_place_self below (by omega), taken]
      refine ⟨sized, place_lt below (by omega), belowBack, ?_, ?_, ?_, sound.own, sound.reads⟩
      · simp only [State.sent, State.received, Buffer.access, Buffer.contents, Option.map_some,
          Option.getD_some, moves, sized]
        rw [stream, Buffer.contents, sized, fewerLeft, ← taken]
        simp only [List.append_assoc]
      · intro writing writes
        obtain ⟨room, known, writer⟩ := sound.writer writing writes
        refine ⟨room, ?_, writer⟩
        simp only [Buffer.access, free, counted]
        unfold free at known
        omega
      · intro _ isRunning
        obtain rfl := Option.some_inj.mp isRunning
        refine ⟨elements.drop length, ?_, ?_⟩
        · simp only [Buffer.access, Buffer.contents, sized]
          rw [Buffer.contents, sized, fewerLeft, ← taken] at isThere
          refine (List.prefix_append_right_inj (elements.take length)).mp ?_
          rwa [List.take_append_drop]
        · simpa [moves, Buffer.access] using later
  | setBack position => exact reads.elim

theorem Sound.step (contract : Contract ends size promise)
    (finishes : ∀ own written entry status after moved, motive own written →
      promise.sends own entry status after moved → motive after (written ++ [⟨entry, status, moved⟩]))
    {action : Action Entry Request} (sound : Sound size promise motive state)
    (moved : (system ends size start).step state action = some next) :
    Sound size promise motive next := by
  obtain ⟨buffer, own, writer, reader, written, log⟩ := state
  cases action with
  | write entry =>
      cases writer with
      | some running => cases moved
      | none =>
          obtain rfl := Option.some_inj.mp moved
          refine ⟨sound.sized, sound.front, sound.back, ?_, ?_, sound.reader, sound.own, sound.reads⟩
          · exact sound.stream
          · intro _ isRunning
            obtain rfl := Option.some_inj.mp isRunning
            exact ⟨0, Nat.zero_le _, contract.write own entry buffer.slot _ sound.back⟩
  | writer =>
      cases writer with
      | none => cases moved
      | some running =>
          cases isNext : running.code with
          | done result =>
              simp only [system, State.stepWriter, isNext, Option.some_inj] at moved
              obtain rfl := moved
              obtain ⟨room, known, ends_⟩ := sound.writer running rfl
              rw [isNext] at ends_
              refine ⟨sound.sized, sound.front, sound.back, ?_, ?_, sound.reader, ?_, sound.reads⟩
              · have stream := sound.stream
                simpa [State.sent, State.received] using stream
              · intro _ isRunning
                cases isRunning
              · exact finishes _ _ _ _ _ _ sound.own ends_
          | spin =>
              simp only [system, State.stepWriter, isNext, reduceCtorEq] at moved
          | step access code =>
              simp only [system, State.stepWriter, isNext, Option.some_inj] at moved
              obtain rfl := moved
              exact sound.writer_step rfl isNext
  | read request =>
      cases reader with
      | some running => cases moved
      | none =>
          obtain rfl := Option.some_inj.mp moved
          refine ⟨sound.sized, sound.front, sound.back, ?_, sound.writer, ?_, sound.own, sound.reads⟩
          · exact sound.stream
          · intro _ isRunning
            obtain rfl := Option.some_inj.mp isRunning
            exact ⟨[], List.nil_prefix, contract.read request _ sound.front⟩
  | reader =>
      cases reader with
      | none => cases moved
      | some running =>
          cases isNext : running.code with
          | done reply =>
              simp only [system, State.stepReader, isNext, Option.some_inj] at moved
              obtain rfl := moved
              obtain ⟨elements, isThere, ends_⟩ := sound.reader running rfl
              rw [isNext] at ends_
              refine ⟨sound.sized, sound.front, sound.back, ?_, sound.writer, ?_, sound.own, ?_⟩
              · have stream := sound.stream
                simpa [State.sent, State.received] using stream
              · intro _ isRunning
                cases isRunning
              · intro done member
                rcases List.mem_append.mp member with before | isNew
                · exact sound.reads done before
                · obtain rfl := List.mem_singleton.mp isNew
                  exact ends_
          | spin =>
              simp only [system, State.stepReader, isNext, reduceCtorEq] at moved
          | step access code =>
              simp only [system, State.stepReader, isNext, Option.some_inj] at moved
              obtain rfl := moved
              exact sound.reader_step rfl isNext

/-- In every run of ends that keep their contracts, what has been sent is what has been received and what
is there. -/
theorem sound_of_reachable (contract : Contract ends size promise)
    (initially : motive start [])
    (finishes : ∀ own written entry status after moved, motive own written →
      promise.sends own entry status after moved → motive after (written ++ [⟨entry, status, moved⟩]))
    (reached : (system ends size start).Reachable state) :
    Sound size promise motive state := by
  refine reached.invariant ?_ ?_
  · rintro _ ⟨slot, position, below, rfl⟩
    refine ⟨rfl, below, below, ?_, ?_, ?_, initially, ?_⟩
    · simp [State.sent, State.received, Buffer.contents, contents_self]
    · intro _ isRunning
      cases isRunning
    · intro _ isRunning
      cases isRunning
    · intro done member
      cases member
  · intro state action next sound moved
    exact sound.step contract finishes moved

/-- A call of the writer that may not wait ends by its own steps, also if the reader takes none. -/
theorem Sound.writer_finishes (contract : Contract ends size promise)
    (finishes : ∀ own written entry status after moved, motive own written →
      promise.sends own entry status after moved → motive after (written ++ [⟨entry, status, moved⟩]))
    {origin : State Element Own Entry Status Request Reply}
    {running : Running Entry (Status × Own) Element} (sound : Sound size promise motive state)
    (leads : (system ends size start).Leads (fun _ action => action = .writer) origin state)
    (runs : state.writer = some running) (busy : ¬ promise.waits state.own running.entry) :
    ∃ final, (system ends size start).Leads (fun _ action => action = .writer) origin final ∧
      final.writer = none ∧ ∃ status moved,
        final.written = state.written ++ [⟨running.entry, status, moved⟩] := by
  obtain ⟨entry, code, moved⟩ := running
  induction code generalizing state moved with
  | done result =>
      have steps : (system ends size start).step state .writer = some { state with
          own := result.2
          writer := none
          written := state.written ++ [⟨entry, result.1, moved⟩] } := by
        simp only [system, State.stepWriter, runs]
      exact ⟨_, .step leads rfl steps, rfl, result.1, moved, rfl⟩
  | spin =>
      obtain ⟨room, known, writes⟩ := sound.writer _ runs
      exact absurd writes busy
  | step access next ih =>
      have steps : (system ends size start).step state .writer = some { state with
          buffer := (state.buffer.access access).2
          writer := some { entry := entry, code := next (state.buffer.access access).1,
                           moved := moved ++ state.buffer.moved access } } := by
        simp only [system, State.stepWriter, runs]
      exact ih _ (sound.step contract finishes steps) (.step leads rfl steps) _ rfl busy

theorem Sound.reader_finishes (contract : Contract ends size promise)
    (finishes : ∀ own written entry status after moved, motive own written →
      promise.sends own entry status after moved → motive after (written ++ [⟨entry, status, moved⟩]))
    {origin : State Element Own Entry Status Request Reply} {running : Running Request Reply Element}
    (sound : Sound size promise motive state)
    (leads : (system ends size start).Leads (fun _ action => action = .reader) origin state)
    (runs : state.reader = some running) (busy : ¬ promise.readerWaits running.entry) :
    ∃ final, (system ends size start).Leads (fun _ action => action = .reader) origin final ∧
      final.reader = none ∧ ∃ reply moved,
        final.reads = state.reads ++ [⟨running.entry, reply, moved⟩] := by
  obtain ⟨entry, code, moved⟩ := running
  induction code generalizing state moved with
  | done reply =>
      have steps : (system ends size start).step state .reader = some { state with
          reader := none
          reads := state.reads ++ [⟨entry, reply, moved⟩] } := by
        simp only [system, State.stepReader, runs]
      exact ⟨_, .step leads rfl steps, rfl, reply, moved, rfl⟩
  | spin =>
      obtain ⟨elements, isThere, reads⟩ := sound.reader _ runs
      exact absurd reads busy
  | step access next ih =>
      have steps : (system ends size start).step state .reader = some { state with
          buffer := (state.buffer.access access).2
          reader := some { entry := entry, code := next (state.buffer.access access).1,
                           moved := moved ++ state.buffer.moved access } } := by
        simp only [system, State.stepReader, runs]
      exact ih _ (sound.step contract finishes steps) (.step leads rfl steps) _ rfl busy

end Sound

end Channel
