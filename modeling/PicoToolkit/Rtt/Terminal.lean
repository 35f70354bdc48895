import PicoToolkit.Rtt.Link

/-!
The terminals behind an up buffer.  Their bytes share one stream: the byte 0xff and the name of a terminal
switch to that terminal.  What the host shows on each of them is what the calls wrote for it, if the
messages do not hold the byte that switches.
-/

namespace PicoToolkit.Rtt

open Channel Transition

def terminalOf (name : Byte) : Byte := BitVec.ofNat 8 (aTerminalId.idxOf name)

/-- The host: the terminal that it shows bytes on, and whether the next byte names another one. -/
structure Host where
  terminal : Byte
  switching : Bool := false

namespace Host

def receive (host : Host) (byte : Byte) : List (Byte × Byte) × Host :=
  if host.switching then ([], { terminal := terminalOf byte })
  else if byte = 0xff then ([], { host with switching := true })
  else ([(host.terminal, byte)], host)

def shows (host : Host) : List Byte → List (Byte × Byte) × Host
  | [] => ([], host)
  | byte :: rest =>
      let first := host.receive byte
      let others := first.2.shows rest
      (first.1 ++ others.1, others.2)

theorem shows_append (host : Host) (first second : List Byte) :
    host.shows (first ++ second) =
      ((host.shows first).1 ++ ((host.shows first).2.shows second).1,
        ((host.shows first).2.shows second).2) := by
  induction first generalizing host with
  | nil => rfl
  | cons byte rest ih =>
      simp only [List.cons_append, shows, ih, List.append_assoc]

theorem shows_prefix (host : Host) {first second : List Byte} (isStart : first <+: second) :
    (host.shows first).1 <+: (host.shows second).1 := by
  obtain ⟨rest, rfl⟩ := isStart
  rw [shows_append]
  exact List.prefix_append _ _

end Host

def Plain (bytes : List Byte) : Prop := ∀ byte ∈ bytes, byte ≠ 0xff

instance (bytes : List Byte) : Decidable (Plain bytes) :=
  inferInstanceAs (Decidable (∀ byte ∈ bytes, byte ≠ 0xff))

theorem Plain.take {bytes : List Byte} {length : Nat} (plain : Plain bytes) :
    Plain (bytes.take length) :=
  fun byte member => plain byte (List.mem_of_mem_take member)

theorem shows_plain {terminal : Byte} {bytes : List Byte} (plain : Plain bytes) :
    Host.shows { terminal := terminal } bytes =
      (bytes.map fun byte => (terminal, byte), { terminal := terminal }) := by
  induction bytes with
  | nil => rfl
  | cons byte rest ih =>
      have others : Plain rest := fun other member => plain other (List.mem_cons_of_mem _ member)
      have here : byte ≠ 0xff := plain byte List.mem_cons_self
      simp only [Host.shows, Host.receive, Bool.false_eq_true, if_false, here, ih others,
        List.map_cons, List.cons_append, List.nil_append]

theorem terminalOf_name {terminalId : Byte} (known : terminalId.toNat < 16) :
    terminalOf (aTerminalId.getD terminalId.toNat 0) = terminalId := by
  have all : ∀ number < 16, aTerminalId.idxOf (aTerminalId.getD number 0) = number := by decide
  rw [terminalOf, all _ known]
  bv_omega

theorem shows_switch {terminal terminalId : Byte} (known : terminalId.toNat < 16) :
    Host.shows { terminal := terminal } (terminalSwitch terminalId) =
      ([], { terminal := terminalId }) := by
  simp only [Host.shows, Host.receive, terminalSwitch, Bool.false_eq_true, if_false, if_true,
    terminalOf_name known, List.append_nil]

def Call.messages : Call → List Byte
  | .write message | .writeSkip message | .terminalOut _ message => message.bytes
  | .putChar byte | .putCharSkip byte => [byte]
  | .setTerminal _ | .setFlags _ => []

def wrote (activeTerminal : Byte) (done : Done Entry Int Byte) : List (Byte × Byte) :=
  match done.entry.call with
  | .terminalOut terminalId string =>
      (string.bytes.take done.status.toNat).map fun byte => (terminalId, byte)
  | .setTerminal _ => []
  | _ => done.moved.map fun byte => (activeTerminal, byte)

def activeAfter (activeTerminal : Byte) (done : Done Entry Int Byte) : Byte :=
  match done.entry.call with
  | .setTerminal terminalId => if done.status = 0 then terminalId else activeTerminal
  | _ => activeTerminal

def wroteAll (activeTerminal : Byte) : List (Done Entry Int Byte) → List (Byte × Byte) × Byte
  | [] => ([], activeTerminal)
  | done :: rest =>
      let others := wroteAll (activeAfter activeTerminal done) rest
      (wrote activeTerminal done ++ others.1, others.2)

theorem wroteAll_append (activeTerminal : Byte) (first second : List (Done Entry Int Byte)) :
    wroteAll activeTerminal (first ++ second) =
      ((wroteAll activeTerminal first).1 ++ (wroteAll (wroteAll activeTerminal first).2 second).1,
        (wroteAll (wroteAll activeTerminal first).2 second).2) := by
  induction first generalizing activeTerminal with
  | nil => rfl
  | cons done rest ih =>
      simp only [List.cons_append, wroteAll, ih, List.append_assoc]

theorem shows_call {settings after : Settings} {entry : Entry} {status : Int} {moved : List Byte}
    (known : settings.activeTerminal.toNat < 16) (plain : Plain entry.call.messages)
    (sends : Sends settings entry status after moved) :
    Host.shows { terminal := settings.activeTerminal } moved =
        (wrote settings.activeTerminal ⟨entry, status, moved⟩, { terminal := after.activeTerminal }) ∧
      after.activeTerminal = activeAfter settings.activeTerminal ⟨entry, status, moved⟩ ∧
      after.activeTerminal.toNat < 16 := by
  obtain ⟨call, rounds⟩ := entry
  have plainCall : ∀ {bytes}, Plain bytes → moved = bytes →
      Host.shows { terminal := settings.activeTerminal } moved =
        (moved.map (fun byte => (settings.activeTerminal, byte)),
          { terminal := settings.activeTerminal }) := by
    rintro _ plain rfl
    exact shows_plain plain
  have plainNone : Plain ([] : List Byte) := fun byte member => absurd member List.not_mem_nil
  have plainSkip : ∀ {bytes done}, Plain bytes → AllOrNothing bytes done moved →
      Host.shows { terminal := settings.activeTerminal } moved =
        (moved.map (fun byte => (settings.activeTerminal, byte)),
          { terminal := settings.activeTerminal }) := by
    rintro bytes done plain (⟨_, same⟩ | ⟨_, same⟩)
    · exact plainCall plain same
    · exact plainCall plainNone same
  cases call with
  | write message =>
      obtain ⟨rfl, _, _, same, _⟩ := sends
      exact ⟨plainCall plain.take same, rfl, known⟩
  | writeSkip message =>
      obtain ⟨rfl, _, _, all⟩ := sends
      exact ⟨plainSkip plain all, rfl, known⟩
  | putChar byte =>
      obtain ⟨rfl, _, _, all, _⟩ := sends
      exact ⟨plainSkip plain all, rfl, known⟩
  | putCharSkip byte =>
      obtain ⟨rfl, _, _, all⟩ := sends
      exact ⟨plainSkip plain all, rfl, known⟩
  | setTerminal terminalId =>
      obtain ⟨_, ⟨rfl, isKnown, active, rfl⟩ | ⟨rfl, active, rfl, _⟩⟩ := sends
      · rw [active, shows_switch isKnown]
        exact ⟨rfl, rfl, isKnown⟩
      · rw [active]
        exact ⟨rfl, rfl, known⟩
  | terminalOut terminalId string =>
      obtain ⟨rfl, ⟨length, inside, rfl, isKnown, rfl, _⟩ | ⟨failed, rfl, _⟩⟩ := sends
      · refine ⟨?_, rfl, known⟩
        have text : Plain (string.bytes.take length) := plain.take
        simp only [List.append_assoc, Host.shows_append, shows_switch isKnown, shows_plain text,
          shows_switch known, wrote, Int.toNat_natCast, List.nil_append, List.append_nil]
      · refine ⟨?_, rfl, known⟩
        have none_ : status.toNat = 0 := Int.toNat_of_nonpos failed
        simp [wrote, none_, Host.shows]
  | setFlags flags =>
      obtain ⟨rfl, rfl, rfl⟩ := sends
      exact ⟨rfl, rfl, known⟩

theorem shows_history {start settings : Settings} {calls : List (Done Entry Int Byte)}
    (known : start.activeTerminal.toNat < 16)
    (plain : ∀ done ∈ calls, Plain done.entry.call.messages)
    (history : History start calls settings) :
    Host.shows { terminal := start.activeTerminal } (calls.flatMap Done.moved) =
        ((wroteAll start.activeTerminal calls).1, { terminal := settings.activeTerminal }) ∧
      settings.activeTerminal = (wroteAll start.activeTerminal calls).2 ∧
      settings.activeTerminal.toNat < 16 := by
  induction history with
  | nil => exact ⟨rfl, rfl, known⟩
  | @snoc before settings entry status after moved _ sends ih =>
      obtain ⟨shown, active, isKnown⟩ := ih fun done member =>
        plain done (List.mem_append_left _ member)
      have isPlain : Plain entry.call.messages := plain ⟨entry, status, moved⟩ (by simp)
      obtain ⟨shownCall, activeCall, isKnownCall⟩ := shows_call isKnown isPlain sends
      refine ⟨?_, ?_, isKnownCall⟩
      · rw [List.flatMap_append, Host.shows_append, shown, wroteAll_append, ← active]
        simp only [List.flatMap_cons, List.flatMap_nil, List.append_nil, shownCall, wroteAll]
      · rw [wroteAll_append, ← active]
        exact activeCall

/-- Whenever no call is running, the bytes sent so far show on each terminal what the calls wrote for it,
and the host, which may be behind, shows the start of that. -/
theorem terminals_show {sizeOfBuffer : Word} {settings : Settings} {state : LinkState}
    (reached : (link sizeOfBuffer settings).Reachable state)
    (known : settings.activeTerminal.toNat < 16) (idle : state.writer = none)
    (plain : ∀ done ∈ state.written, Plain done.entry.call.messages) :
    Host.shows { terminal := settings.activeTerminal } state.sent =
        ((wroteAll settings.activeTerminal state.written).1,
          { terminal := state.own.activeTerminal }) ∧
      (Host.shows { terminal := settings.activeTerminal } state.received).1 <+:
        (wroteAll settings.activeTerminal state.written).1 ∧
      (state.buffer.contents = [] →
        (Host.shows { terminal := settings.activeTerminal } state.received).1 =
          (wroteAll settings.activeTerminal state.written).1) := by
  obtain ⟨stream, _, history, _⟩ := link_delivers reached
  obtain ⟨shown, _, _⟩ := shows_history known plain history
  have sent : state.sent = state.written.flatMap Done.moved := by
    simp [Channel.State.sent, idle]
  rw [← sent] at shown
  refine ⟨shown, ?_, ?_⟩
  · have isStart : state.received <+: state.sent := by
      rw [stream]
      exact List.prefix_append _ _
    have found := Host.shows_prefix { terminal := settings.activeTerminal } isStart
    rwa [shown] at found
  · intro empty
    rw [empty, List.append_nil] at stream
    rw [← stream, shown]

theorem terminals_show_one : ∃ state : LinkState,
    (wroteAll 0 state.written).1 = [(1, 0x41)] ∧ state.received = [0xff, 0x31] ∧
      Host.shows { terminal := 0 } state.sent =
        ((wroteAll 0 state.written).1, { terminal := state.own.activeTerminal }) ∧
      (Host.shows { terminal := 0 } state.received).1 <+: (wroteAll 0 state.written).1 ∧
      (state.buffer.contents = [] →
        (Host.shows { terminal := 0 } state.received).1 = (wroteAll 0 state.written).1) := by
  have found := @System.exists_of_run _ _ (link 8 ⟨rttModeNoBlockSkip, 0⟩) (fun _ _ => True) _
    { buffer := ⟨fun _ => 0, 8, 0, 0⟩, own := ⟨rttModeNoBlockSkip, 0⟩ }
    ⟨fun _ => 0, 0, by decide, rfl⟩
    ([.write ⟨.terminalOut 1 ⟨[0x41], of_decide_eq_true rfl⟩, 2⟩] ++ List.replicate 17 .writer ++
      [.read (.read 2)] ++ List.replicate 6 .reader)
    (fun state => (wroteAll 0 state.written).1 = [(1, 0x41)] ∧ state.received = [0xff, 0x31] ∧
      state.writer.isNone ∧ ∀ done ∈ state.written, Plain done.entry.call.messages)
    _ (by decide)
  obtain ⟨state, reached, written, received, idle, plain⟩ := found
  exact ⟨state, written, received,
    terminals_show reached (by decide) (Option.isNone_iff_eq_none.mp idle) plain⟩

end PicoToolkit.Rtt
