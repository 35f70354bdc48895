import PicoToolkit.Rtt.Rules

/-!
A ring buffer between the target and the host.  One end writes, one call after the other since the calls
hold the lock; the other end reads, and the accesses of both come in any order.  On an up buffer the
target writes, on a down buffer the host.
-/

namespace PicoToolkit.Rtt

open Channel Circular Transition

structure Message where
  bytes : List Byte
  short : bytes.length < 2 ^ 31

def Message.numBytes (message : Message) : Word := BitVec.ofNat 32 message.bytes.length

theorem Message.toNat_numBytes (message : Message) :
    message.numBytes.toNat = message.bytes.length := by
  have short := message.short
  rw [numBytes, BitVec.toNat_ofNat]
  omega

inductive Call where
  | write (message : Message)
  | writeSkip (message : Message)
  | putChar (byte : Byte)
  | putCharSkip (byte : Byte)
  | setTerminal (terminalId : Byte)
  | terminalOut (terminalId : Byte) (string : Message)
  | setFlags (flags : Word)

structure Entry where
  call : Call
  rounds : Nat

/-- What changes only under the lock: the flags of the ring and `_ActiveTerminal`. -/
structure Settings where
  flags : Word
  activeTerminal : Byte

def entryCode (sizeOfBuffer : Word) (settings : Settings) (entry : Entry) :
    Code Byte (Int × Settings) :=
  match entry.call with
  | .write message => do
      let status ← writeNoLock sizeOfBuffer settings.flags entry.rounds message.bytes message.numBytes
      return (status.toNat, settings)
  | .writeSkip message => do
      let status ← writeSkipNoLock sizeOfBuffer message.bytes message.numBytes
      return (status.toNat, settings)
  | .putChar byte => do
      let status ← putChar sizeOfBuffer settings.flags entry.rounds byte
      return (status.toNat, settings)
  | .putCharSkip byte => do
      let status ← putCharSkipNoLock sizeOfBuffer byte
      return (status.toNat, settings)
  | .setTerminal terminalId => do
      let (status, activeTerminal) ←
        setTerminal sizeOfBuffer settings.flags entry.rounds settings.activeTerminal terminalId
      return (status, { settings with activeTerminal := activeTerminal })
  | .terminalOut terminalId string => do
      let status ← terminalOut sizeOfBuffer settings.flags entry.rounds settings.activeTerminal
        terminalId string.bytes
      return (status, settings)
  | .setFlags flags => return (0, { settings with flags := flags })

inductive Request where
  | read (bufferSize : Word)
  | getKey
  | waitKey (rounds : Nat)
  | hasKey
  | hasData

structure Reply where
  value : Int
  bytes : List Byte

def requestCode (sizeOfBuffer : Word) : Request → Code Byte Reply
  | .read bufferSize => do
      let (numBytesRead, bytes) ← readNoLock sizeOfBuffer bufferSize
      return ⟨numBytesRead.toNat, bytes⟩
  | .getKey => do
      let key ← getKey sizeOfBuffer
      return ⟨key, []⟩
  | .waitKey rounds => do
      let key ← waitKey sizeOfBuffer rounds
      return ⟨key, []⟩
  | .hasKey => do
      let value ← hasKey
      return ⟨value, []⟩
  | .hasData => do
      let value ← hasData
      return ⟨value.toNat, []⟩

def ends (sizeOfBuffer : Word) : Ends Byte Settings Entry Int Request Reply where
  write := fun settings entry => entryCode sizeOfBuffer settings entry
  read := requestCode sizeOfBuffer

def Settings.Blocks (settings : Settings) : Prop :=
  settings.flags &&& rttModeMask = rttModeBlockIfFifoFull

def Sends (settings : Settings) (entry : Entry) (status : Int) (after : Settings)
    (moved : List Byte) : Prop :=
  match entry.call with
  | .write message => after = settings ∧
      ∃ numBytes : Word, status = numBytes.toNat ∧ Written settings.flags message.bytes numBytes moved
  | .writeSkip message => after = settings ∧
      ∃ done : Word, status = done.toNat ∧ AllOrNothing message.bytes done moved
  | .putChar byte => after = settings ∧
      ∃ done : Word, status = done.toNat ∧ AllOrNothing [byte] done moved ∧
        (settings.flags = rttModeBlockIfFifoFull → done = 1)
  | .putCharSkip byte => after = settings ∧
      ∃ done : Word, status = done.toNat ∧ AllOrNothing [byte] done moved
  | .setTerminal terminalId => after.flags = settings.flags ∧
      Switched settings.flags settings.activeTerminal terminalId status after.activeTerminal moved
  | .terminalOut terminalId string => after = settings ∧
      PutOut settings.flags settings.activeTerminal terminalId string.bytes status moved
  | .setFlags flags => after = { settings with flags := flags } ∧ status = 0 ∧ moved = []

def Receives (request : Request) (reply : Reply) (moved : List Byte) : Prop :=
  match request with
  | .read bufferSize => reply.bytes = moved ∧ reply.value = moved.length ∧
      moved.length ≤ bufferSize.toNat
  | .getKey => reply.value = -1 ∧ moved = [] ∨ ∃ byte : Byte, reply.value = byte.toNat ∧ moved = [byte]
  | .waitKey _ => ∃ byte : Byte, reply.value = byte.toNat ∧ moved = [byte]
  | .hasKey | .hasData => moved = []

/-- Only calls in blocking mode wait for the other end, and `SEGGER_RTT_WaitKey`. -/
def promise : Promise Byte Settings Entry Int Request Reply where
  sends := Sends
  receives := Receives
  waits settings entry := settings.Blocks ∨ entry.rounds < 2
  readerWaits request := ∃ rounds, request = .waitKey rounds

instance (settings : Settings) : Decidable settings.Blocks :=
  inferInstanceAs (Decidable (_ = _))

theorem blocks_of_eq {settings : Settings} (mode : settings.flags = rttModeBlockIfFifoFull) :
    settings.Blocks := by
  rw [Settings.Blocks, mode]
  decide

theorem writes_entry {sizeOfBuffer : Word} (settings : Settings) (entry : Entry)
    (slot : Nat → Byte) (back : Nat) (below : back < sizeOfBuffer.toNat) :
    Writes sizeOfBuffer.toNat (promise.waits settings entry)
      (fun result sender => promise.sends settings entry result.1 result.2 sender.sent)
      (entryCode sizeOfBuffer settings entry) ⟨slot, back, 0, []⟩ := by
  obtain ⟨call, rounds⟩ := entry
  have mayBlock : settings.flags = rttModeBlockIfFifoFull → promise.waits settings ⟨call, rounds⟩ :=
    fun mode => Or.inl (blocks_of_eq mode)
  have enough : promise.waits settings ⟨call, rounds⟩ ∨ 2 ≤ rounds := by
    by_cases few : rounds < 2
    · exact Or.inl (Or.inr few)
    · exact Or.inr (by omega)
  cases call with
  | write message =>
      refine Writes.bind (writes_writeNoLock below message.toNat_numBytes mayBlock ?_)
      intro status after moved sent written
      rw [List.nil_append] at sent
      exact ⟨rfl, status, rfl, sent ▸ written⟩
  | writeSkip message =>
      refine Writes.bind (writes_writeSkipNoLock below message.toNat_numBytes ?_)
      intro status after moved sent written
      rw [List.nil_append] at sent
      exact ⟨rfl, status, rfl, sent ▸ written⟩
  | putChar byte =>
      refine Writes.bind (writes_putChar below mayBlock ?_)
      intro status after moved sent written blocks
      rw [List.nil_append] at sent
      exact ⟨rfl, status, rfl, sent ▸ written, blocks⟩
  | putCharSkip byte =>
      refine Writes.bind (writes_putCharSkipNoLock below ?_)
      intro status after moved sent written
      rw [List.nil_append] at sent
      exact ⟨rfl, status, rfl, sent ▸ written⟩
  | setTerminal terminalId =>
      refine Writes.bind (writes_setTerminal below Or.inl ?_)
      intro result after moved sent switched
      rw [List.nil_append] at sent
      exact ⟨rfl, sent ▸ switched⟩
  | terminalOut terminalId string =>
      refine Writes.bind (writes_terminalOut below string.short Or.inl enough ?_)
      intro status after moved sent put
      rw [List.nil_append] at sent
      exact ⟨rfl, sent ▸ put⟩
  | setFlags flags => exact ⟨rfl, rfl, rfl⟩

theorem reads_getKey {sizeOfBuffer : Word} {waits : Prop} {post : Int → Receiver Byte → Prop}
    {receiver : Receiver Byte} (below : receiver.front < sizeOfBuffer.toNat)
    (later : ∀ (key : Int) (after : Receiver Byte) moved, after.front < sizeOfBuffer.toNat →
      after.received = receiver.received ++ moved →
      (key = -1 ∧ moved = [] ∨ ∃ byte : Byte, key = byte.toNat ∧ moved = [byte]) →
      (receiver.elements ≠ [] → moved ≠ []) → post key after) :
    Reads sizeOfBuffer.toNat waits post (getKey sizeOfBuffer) receiver := by
  refine Reads.bind (reads_readNoLock below ?_)
  rintro ⟨numBytesRead, bytes⟩ after moved belowAfter received ⟨same, long, short⟩ progress
  obtain rfl : bytes = moved := same
  simp only at long
  have short : bytes.length ≤ 1 := short
  have more : receiver.elements ≠ [] → bytes ≠ [] := fun some_ => progress some_ (by decide)
  cases bytes with
  | nil =>
      rw [List.length_nil] at long
      have zero : numBytesRead ≠ 1 := by bv_omega
      simp only [zero, if_false]
      exact later _ _ _ belowAfter received (Or.inl ⟨rfl, rfl⟩) more
  | cons byte rest =>
      rw [List.length_cons] at long short
      have one : numBytesRead = 1 := by bv_omega
      obtain rfl : rest = [] := List.length_eq_zero_iff.mp (by omega)
      simp only [one, if_true]
      exact later _ _ _ belowAfter received (Or.inr ⟨byte, rfl, rfl⟩) more

theorem reads_waitKey {sizeOfBuffer : Word} {waits : Prop} {post : Int → Receiver Byte → Prop}
    {receiver : Receiver Byte} {rounds : Nat} (may : waits)
    (below : receiver.front < sizeOfBuffer.toNat)
    (later : ∀ (byte : Byte) (after : Receiver Byte), after.received = receiver.received ++ [byte] →
      post byte.toNat after) :
    Reads sizeOfBuffer.toNat waits post (waitKey sizeOfBuffer rounds) receiver := by
  induction rounds generalizing receiver with
  | zero => exact may
  | succ rounds ih =>
      refine Reads.bind (reads_getKey below ?_)
      intro key after moved belowAfter received result _
      rcases result with ⟨rfl, rfl⟩ | ⟨byte, rfl, rfl⟩
      · rw [if_pos (by decide)]
        refine ih belowAfter fun byte last later_ => later byte last ?_
        rw [later_, received, List.append_nil]
      · rw [if_neg (by omega)]
        exact later byte after received

theorem reads_request {sizeOfBuffer : Word} (request : Request) (front : Nat)
    (below : front < sizeOfBuffer.toNat) :
    Reads sizeOfBuffer.toNat (promise.readerWaits request)
      (fun reply receiver => promise.receives request reply receiver.received)
      (requestCode sizeOfBuffer request) ⟨front, [], []⟩ := by
  cases request with
  | read bufferSize =>
      refine Reads.bind (reads_readNoLock below ?_)
      rintro ⟨numBytesRead, bytes⟩ after moved _ received ⟨same, long, short⟩ _
      rw [List.nil_append] at received
      subst received
      exact ⟨same, congrArg Nat.cast long, short⟩
  | getKey =>
      refine Reads.bind (reads_getKey below ?_)
      intro key after moved _ received result _
      rw [List.nil_append] at received
      subst received
      exact result
  | waitKey rounds =>
      refine Reads.bind (reads_waitKey ⟨rounds, rfl⟩ below ?_)
      intro byte after received
      exact ⟨byte, rfl, received⟩
  | hasKey =>
      refine Reads.bind (Reads.bind (reads_rdOff below fun readOffset _ => ?_))
      refine Reads.bind (reads_wrOff fun offset _ elements _ _ => ?_)
      split
      · rfl
      · rfl
  | hasData =>
      refine Reads.bind (Reads.bind (reads_wrOff fun offset _ elements _ _ => ?_))
      exact Reads.bind (reads_rdOff below fun readOffset _ => rfl)

theorem contract (sizeOfBuffer : Word) :
    Contract (ends sizeOfBuffer) sizeOfBuffer.toNat promise where
  write := writes_entry
  read := reads_request

/-- Calls one after the other, with what each of them sends and the settings it leaves. -/
inductive History (start : Settings) : List (Done Entry Int Byte) → Settings → Prop
  | nil : History start [] start
  | snoc {before settings entry status after moved} : History start before settings →
      Sends settings entry status after moved →
        History start (before ++ [⟨entry, status, moved⟩]) after

abbrev LinkState : Type := Channel.State Byte Settings Entry Int Request Reply

def link (sizeOfBuffer : Word) (settings : Settings) :
    System LinkState (Channel.Action Entry Request) :=
  system (ends sizeOfBuffer) sizeOfBuffer.toNat settings

section Link

variable {sizeOfBuffer : Word} {settings : Settings} {state : LinkState}

theorem link_sound (reached : (link sizeOfBuffer settings).Reachable state) :
    Sound sizeOfBuffer.toNat promise (fun own written => History settings written own) state :=
  sound_of_reachable (contract sizeOfBuffer) .nil
    (fun _ _ _ _ _ _ before sends => .snoc before sends) reached

/-- Whatever the order of the accesses, the bytes that have been sent are those that have been received
and those in the buffer, and every call of either end does what it says. -/
theorem link_delivers (reached : (link sizeOfBuffer settings).Reachable state) :
    state.sent = state.received ++ state.buffer.contents ∧
      state.buffer.contents.length < sizeOfBuffer.toNat ∧
      History settings state.written state.own ∧
      ∀ done ∈ state.reads, Receives done.entry done.status done.moved := by
  have sound := link_sound reached
  have sized := sound.sized
  refine ⟨sound.stream, ?_, sound.own, sound.reads⟩
  rw [Buffer.contents, length_contents, sized]
  exact count_lt sound.front sound.back

theorem link_delivers_two : ∃ state : LinkState,
    (state.received = [0x68] ∧ state.buffer.contents = [0x69]) ∧
      state.sent = state.received ++ state.buffer.contents ∧
      state.buffer.contents.length < (4 : Word).toNat ∧
      History ⟨rttModeNoBlockSkip, 0⟩ state.written state.own ∧
      ∀ done ∈ state.reads, Receives done.entry done.status done.moved := by
  have found := @System.exists_of_run _ _ (link 4 ⟨rttModeNoBlockSkip, 0⟩) (fun _ _ => True) _
    { buffer := ⟨fun _ => 0, 4, 3, 3⟩, own := ⟨rttModeNoBlockSkip, 0⟩ }
    ⟨fun _ => 0, 3, by decide, rfl⟩
    ([.write ⟨.write ⟨[0x68, 0x69], of_decide_eq_true rfl⟩, 1⟩] ++ List.replicate 7 .writer ++
      [.read (.read 1)] ++ List.replicate 5 .reader)
    (fun state => state.received = [0x68] ∧ state.buffer.contents = [0x69]) _ (by decide)
  obtain ⟨state, reached, delivered⟩ := found
  exact ⟨state, delivered, link_delivers reached⟩

/-- A call that need not wait for the other end finishes by its own steps, also if the other end takes
none. -/
theorem link_finishes (reached : (link sizeOfBuffer settings).Reachable state) :
    (∀ running, state.writer = some running → ¬ state.own.Blocks → 2 ≤ running.entry.rounds →
      ∃ final, (link sizeOfBuffer settings).Leads (fun _ action => action = .writer) state final ∧
        final.writer = none ∧ ∃ status moved,
          final.written = state.written ++ [⟨running.entry, status, moved⟩]) ∧
    ∀ running, state.reader = some running → (∀ rounds, running.entry ≠ .waitKey rounds) →
      ∃ final, (link sizeOfBuffer settings).Leads (fun _ action => action = .reader) state final ∧
        final.reader = none ∧ ∃ reply moved,
          final.reads = state.reads ++ [⟨running.entry, reply, moved⟩] := by
  have sound := link_sound reached
  constructor
  · intro running runs busy enough
    refine sound.writer_finishes (contract sizeOfBuffer)
      (fun _ _ _ _ _ _ before sends => .snoc before sends) .refl runs ?_
    rintro (blocks | few)
    · exact busy blocks
    · omega
  · intro running runs busy
    refine sound.reader_finishes (contract sizeOfBuffer)
      (fun _ _ _ _ _ _ before sends => .snoc before sends) .refl runs ?_
    rintro ⟨rounds, waits⟩
    exact busy rounds waits

/-- The loop of `_WriteBlocking` goes around the end of the buffer, on the way to terminal 1 and back. -/
theorem link_finishes_terminalOut : ∃ final,
    (link 16 ⟨rttModeNoBlockTrim, 0⟩).Leads (fun _ action => action = .writer)
      { buffer := ⟨fun _ => 0, 16, 15, 15⟩
        own := ⟨rttModeNoBlockTrim, 0⟩
        writer := some {
          entry := ⟨.terminalOut 1 ⟨[0x68, 0x69], of_decide_eq_true rfl⟩, 2⟩
          code := entryCode 16 ⟨rttModeNoBlockTrim, 0⟩
            ⟨.terminalOut 1 ⟨[0x68, 0x69], of_decide_eq_true rfl⟩, 2⟩ } } final ∧
      final.writer = none ∧ ∃ status moved,
        final.written = [⟨⟨.terminalOut 1 ⟨[0x68, 0x69], of_decide_eq_true rfl⟩, 2⟩, status, moved⟩] := by
  have begins : (link 16 ⟨rttModeNoBlockTrim, 0⟩).Reachable
      { buffer := ⟨fun _ => 0, 16, 15, 15⟩, own := ⟨rttModeNoBlockTrim, 0⟩ } :=
    .start ⟨fun _ => 0, 15, by decide, rfl⟩
  have reached := begins.step (show (link 16 _).step _
    (.write ⟨.terminalOut 1 ⟨[0x68, 0x69], of_decide_eq_true rfl⟩, 2⟩) = some _ from rfl)
  exact (link_finishes reached).1 _ rfl (by decide) (by decide)

end Link

end PicoToolkit.Rtt
