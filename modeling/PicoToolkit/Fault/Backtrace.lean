import PicoToolkit.Fault.Index
import PicoToolkit.Fault.Truncated

/-!
The backtrace of the fault handler: a frame after the other is recorded and unwound.  The buffer is apart
from the memory that is read.
-/

namespace PicoToolkit.Fault

inductive Name where
  | reachedEnd
  | cantUnwind
  | entryPoint
  | unknown
  | stored (address : Word)
  deriving DecidableEq

structure Backtrace where
  function : Word := 0
  address : Word := 0
  name : Option Name := none
  deriving DecidableEq

/-- The memory, `__exidx_start` and the number of entries up to `__exidx_end`, `_entry_point`, and the
process stack pointer. -/
structure Target where
  memory : Word → Word
  exidxStart : Word
  exidxCount : Nat
  entryPoint : Word
  psp : Word

namespace Target

variable (target : Target)

def exidx : Exidx :=
  { start := target.exidxStart
    entries := (List.range target.exidxCount).map fun index =>
      let place := target.exidxStart + BitVec.ofNat 32 (8 * index)
      ⟨target.memory place, target.memory (place + 4)⟩ }

def searchIndex (ip : Word) : Word :=
  target.exidx.place ((unwindSearchIndex target.exidx 0 target.exidxCount ip).getD 0)

def unwindGetFunctionName (address : Word) : Name :=
  if address &&& 0x3 = 0 then
    let flagWord := target.memory (address - 4)
    if flagWord &&& 0xff000000 = 0xff000000 then
      .stored (address - 4 - (flagWord &&& 0x00ffffff))
    else .unknown
  else .unknown

/-- The end of `unwind_frame`, with the virtual registers behind the instructions. -/
def leaveFrame (frame : Frame) (vrs : Nat → Word) : Int × Frame :=
  let vrs := settlePc vrs
  let (sp, lr, pc) :=
    if vrs 15 &&& 0xf0000000 = 0xf0000000 then
      let sp := vrs 7 &&& 0xfffffff8
      let stack :=
        if vrs 15 &&& 0xc = 0 then
          if vrs 15 &&& 0xf0 = 0xe0 then sp - 8 - 72 else sp - 8
        else target.psp + 24
      (sp, target.memory (stack - 4), target.memory stack)
    else (vrs 13, vrs 14, vrs 15)
  if frame.pc = pc then (0, frame)
  else (1, { fp := vrs 7, sp := sp, lr := lr, pc := pc })

/-- The unwind description behind an index entry, which may hold it itself, and the stack. -/
def description (index insn : Word) : Memories :=
  let instructions :=
    if insn &&& 0x80000000 ≠ 0 then index + 4 else prel31ToAddr (index + 4) insn
  { table := fun word => target.memory (instructions + BitVec.ofNat 32 (4 * word))
    stack := target.memory }

/-- `unwind_frame`: none if the instructions write behind the virtual registers.  The instructions are
executed once, since no result is positive. -/
def unwindFrame (frame : Frame) : Option (Int × Frame) :=
  let index := target.searchIndex frame.pc
  if index = 0 then some (-1, frame)
  else
    let insn := target.memory (index + 4)
    if insn = 0x00000001 then some (0, frame)
    else
      let memories := target.description index insn
      match unwindControlBlockInit memories 0 frame with
      | none => some (-1, frame)
      | some ucb =>
          if (executedRegisters memories (ucb.remaining + 1) ucb).all (· < 16) then
            (unwindExecuteInstruction memories (ucb.remaining + 1) ucb).map fun (result, ucb) =>
              if result = -1 then (-1, frame) else target.leaveFrame frame ucb.vrs
          else none

def clearThumb (frame : Frame) : Frame := { frame with pc := frame.pc &&& 0xfffffffe }

def AtEnd (pc : Word) : Prop :=
  pc = 0 ∨ pc = 1 ∨ (target.entryPoint ≤ pc ∧ pc ≤ target.entryPoint + 64)

instance (pc : Word) : Decidable (target.AtEnd pc) := inferInstanceAs (Decidable (_ ∨ _ ∨ _ ∧ _))

def store (frame : Frame) (entry : Backtrace) : Backtrace :=
  if frame.pc = 0 then { entry with name := some .reachedEnd }
  else if frame.pc = 0x00000001 then { entry with name := some .cantUnwind }
  else if target.entryPoint ≤ frame.pc ∧ frame.pc ≤ target.entryPoint + 64 then
    { address := frame.pc &&& 0xfffffffe, function := target.entryPoint, name := some .entryPoint }
  else
    let index := target.searchIndex frame.pc
    let function := prel31ToAddr index (target.memory index)
    { address := frame.pc &&& 0xfffffffe, function := function
      name := some (target.unwindGetFunctionName function) }

/-- The loop of `_backtrace_unwind`, for at most some rounds. -/
def unwindFrames (size : Nat) :
    Nat → Nat → (Nat → Backtrace) → Frame → Option (Nat × (Nat → Backtrace) × Frame)
  | 0, _, _, _ => none
  | fuel + 1, count, buffer, frame =>
      let buffer := Function.update buffer count (target.store frame (buffer count))
      if target.AtEnd frame.pc then some (count + 1, buffer, frame)
      else
        match target.unwindFrame (clearThumb frame) with
        | none => none
        | some (result, frame) =>
            if result ≠ 0 ∧ count + 1 < size then unwindFrames size fuel (count + 1) buffer frame
            else some (count + 1, buffer, frame)

/-- `_backtrace_unwind` -/
def backtraceUnwind (size : Nat) (buffer : Nat → Backtrace) (frame : Frame) :
    Option (Nat × (Nat → Backtrace) × Frame) :=
  target.unwindFrames size (size + 1) 0 (fun index => if index < size then {} else buffer index) frame

/-- A frame cannot be unwound: it has no index entry, or its description is none of those supported, or has
an instruction that is spare or refuses. -/
def cannotUnwind (frame : Frame) : Bool :=
  let index := target.searchIndex frame.pc
  let insn := target.memory (index + 4)
  index = 0 ||
    insn ≠ 0x00000001 &&
      match Ehabi.description (target.description index insn).table with
      | none => true
      | some (bytes, _) => Ehabi.fails bytes.length bytes

/-- The frames of a call chain, up to the first one that cannot be unwound, as far as there is room. -/
def chain : Nat → Frame → List Frame
  | 0, _ => []
  | room + 1, frame =>
      frame ::
        if target.AtEnd frame.pc ∨ target.cannotUnwind (clearThumb frame) then []
        else
          match target.unwindFrame (clearThumb frame) with
          | some (1, next) => chain room next
          | _ => []

/-- The backtrace has the frames of the call chain in the first entries, zeros in the others, and nothing is
written behind the buffer. -/
def Records (size : Nat) (frame : Frame) : Prop :=
  ∀ buffer, ∃ final last,
    target.backtraceUnwind size buffer frame = some ((target.chain size frame).length, final, last) ∧
      ∀ index, final index =
        match (target.chain size frame)[index]? with
        | some recorded => target.store recorded {}
        | none => if index < size then {} else buffer index

/-- There is room for a frame; the instructions of a frame that is unwound stay with the virtual registers;
and but for the last entry `unwind_frame` fails for none, and unwinds none that cannot be unwound. -/
def Unwinds : Nat → Frame → Prop
  | 0, _ => False
  | room + 1, frame =>
      target.AtEnd frame.pc ∨
        match target.unwindFrame (clearThumb frame) with
        | none => False
        | some (result, next) =>
            result = 0 ∨ room = 0 ∨
              (result = 1 ∧ target.cannotUnwind (clearThumb frame) = false ∧ Unwinds room next)

variable {target : Target}

theorem chain_length (room : Nat) (frame : Frame) : (target.chain room frame).length ≤ room := by
  induction room generalizing frame with
  | zero => exact Nat.le_refl 0
  | succ room ih =>
      rw [chain, List.length_cons]
      refine Nat.succ_le_succ ?_
      split
      · exact Nat.zero_le _
      · split
        · exact ih _
        · exact Nat.zero_le _

section Rounds

variable {size fuel room count : Nat} {buffer : Nat → Backtrace} {frame next : Frame} {result : Int}

theorem unwindFrames_end (ends : target.AtEnd frame.pc) :
    target.unwindFrames size (fuel + 1) count buffer frame =
      some (count + 1, Function.update buffer count (target.store frame (buffer count)), frame) := by
  rw [unwindFrames, if_pos ends]

theorem unwindFrames_overrun (goes : ¬target.AtEnd frame.pc)
    (step : target.unwindFrame (clearThumb frame) = none) :
    target.unwindFrames size (fuel + 1) count buffer frame = none := by
  rw [unwindFrames, if_neg goes, step]

theorem unwindFrames_step (goes : ¬target.AtEnd frame.pc)
    (step : target.unwindFrame (clearThumb frame) = some (result, next)) :
    target.unwindFrames size (fuel + 1) count buffer frame =
      let buffer := Function.update buffer count (target.store frame (buffer count))
      if result ≠ 0 ∧ count + 1 < size then target.unwindFrames size fuel (count + 1) buffer next
      else some (count + 1, buffer, next) := by
  rw [unwindFrames, if_neg goes, step]

theorem chain_end (ends : target.AtEnd frame.pc) : target.chain (room + 1) frame = [frame] := by
  rw [chain, if_pos (.inl ends)]

theorem chain_step (goes : ¬target.AtEnd frame.pc)
    (step : target.unwindFrame (clearThumb frame) = some (result, next)) :
    target.chain (room + 1) frame =
      frame :: if result = 1 ∧ target.cannotUnwind (clearThumb frame) = false then
        target.chain room next
      else [] := by
  rw [chain, step]
  cases cannot : target.cannotUnwind (clearThumb frame) with
  | true => rw [if_pos (.inr rfl), if_neg (by simp)]
  | false =>
      rw [if_neg (by simp [goes])]
      split
      · rename_i same
        cases same
        rw [if_pos ⟨rfl, rfl⟩]
      · rename_i other
        rw [if_neg fun one => other next (by rw [one.1])]

theorem lt_of_unwindFrames {total : Nat} {final : Nat → Backtrace} {last : Frame}
    (ends : target.unwindFrames size fuel count buffer frame = some (total, final, last)) :
    count < total := by
  induction fuel generalizing count buffer frame with
  | zero => cases ends
  | succ fuel ih =>
      by_cases goes : target.AtEnd frame.pc
      · cases (unwindFrames_end goes).symm.trans ends
        exact Nat.lt_succ_self count
      · cases step : target.unwindFrame (clearThumb frame) with
        | none => cases (unwindFrames_overrun goes step).symm.trans ends
        | some outcome =>
            rw [unwindFrames_step goes step] at ends
            split at ends
            · exact Nat.lt_of_succ_lt (ih ends)
            · cases ends
              exact Nat.lt_succ_self count

end Rounds

def entries (target : Target) (count : Nat) (frames : List Frame) (buffer : Nat → Backtrace) :
    Nat → Backtrace :=
  fun index =>
    if index < count then buffer index
    else
      match frames[index - count]? with
      | some recorded => target.store recorded (buffer index)
      | none => buffer index

theorem entries_cons (count : Nat) (frame : Frame) (frames : List Frame) (buffer : Nat → Backtrace) :
    target.entries (count + 1) frames
        (Function.update buffer count (target.store frame (buffer count))) =
      target.entries count (frame :: frames) buffer := by
  funext index
  rcases Nat.lt_trichotomy index count with before | rfl | after
  · rw [entries, entries, if_pos (by omega), if_pos before,
      Function.update_of_ne (Nat.ne_of_lt before)]
  · rw [entries, entries, if_pos (Nat.lt_succ_self index), if_neg (Nat.lt_irrefl index), Nat.sub_self,
      Function.update_self]
    rfl
  · have next : index - count = index - (count + 1) + 1 := by omega
    rw [entries, entries, if_neg (by omega), if_neg (by omega), next, List.getElem?_cons_succ,
      Function.update_of_ne (Nat.ne_of_gt after)]

theorem entries_singleton (count : Nat) (frame : Frame) (buffer : Nat → Backtrace) :
    Function.update buffer count (target.store frame (buffer count)) =
      target.entries count [frame] buffer := by
  rw [← entries_cons]
  funext index
  simp [entries]

theorem unwindFrames_chain {size room : Nat} :
    ∀ {fuel count : Nat} {buffer : Nat → Backtrace} {frame : Frame}, target.Unwinds room frame →
      count + room = size → room ≤ fuel →
        ∃ last, target.unwindFrames size fuel count buffer frame =
          some (count + (target.chain room frame).length,
            target.entries count (target.chain room frame) buffer, last) := by
  induction room with
  | zero => exact fun unwinds => unwinds.elim
  | succ room ih =>
      intro fuel count buffer frame unwinds left enough
      cases fuel with
      | zero => omega
      | succ fuel =>
          by_cases ends : target.AtEnd frame.pc
          · rw [unwindFrames_end ends, chain_end ends, ← entries_singleton]
            exact ⟨frame, rfl⟩
          · have steps := unwinds.resolve_left ends
            cases step : target.unwindFrame (clearThumb frame) with
            | none =>
                rw [step] at steps
                exact steps.elim
            | some outcome =>
                obtain ⟨result, next⟩ := outcome
                rw [step] at steps
                rw [unwindFrames_step ends step, chain_step ends step]
                rcases steps with rfl | rfl | ⟨rfl, can, later⟩
                · have halts : ¬((0 : Int) = 1 ∧ target.cannotUnwind (clearThumb frame) = false) :=
                    fun one => absurd one.1 (by decide)
                  rw [if_neg halts, ← entries_singleton]
                  exact ⟨next, rfl⟩
                · have full : (if result = 1 ∧ target.cannotUnwind (clearThumb frame) = false then
                      target.chain 0 next else []) = [] := by
                    split
                    · rfl
                    · rfl
                  rw [full, ← entries_singleton]
                  simp only [if_neg (fun both : result ≠ 0 ∧ count + 1 < size =>
                    absurd both.2 (by omega))]
                  exact ⟨next, rfl⟩
                · cases room with
                  | zero => exact later.elim
                  | succ room =>
                      have again : (1 : Int) ≠ 0 ∧ count + 1 < size := ⟨by decide, by omega⟩
                      have total : count + (frame :: target.chain (room + 1) next).length =
                          count + 1 + (target.chain (room + 1) next).length := by
                        rw [List.length_cons]
                        omega
                      have goesOn : (1 : Int) = 1 ∧
                          target.cannotUnwind (clearThumb frame) = false := ⟨rfl, can⟩
                      rw [if_pos goesOn, ← entries_cons, total]
                      simp only [if_pos again]
                      exact ih later (by omega) (by omega)

/-- Otherwise the virtual registers are overrun, or more is recorded than the frames of the chain. -/
theorem unwindFrames_repeats {size room : Nat} :
    ∀ {fuel count total : Nat} {buffer final : Nat → Backtrace} {frame last : Frame},
      ¬target.Unwinds room frame → count + room = size →
        target.unwindFrames size fuel count buffer frame = some (total, final, last) →
          count + (target.chain room frame).length < total := by
  induction room with
  | zero =>
      intro fuel count total buffer final frame last _ _ ends
      exact lt_of_unwindFrames ends
  | succ room ih =>
      intro fuel count total buffer final frame last fails left ends
      have goes : ¬target.AtEnd frame.pc := fun atEnd => fails (.inl atEnd)
      cases fuel with
      | zero => cases ends
      | succ fuel =>
          cases step : target.unwindFrame (clearThumb frame) with
          | none => cases (unwindFrames_overrun goes step).symm.trans ends
          | some outcome =>
              obtain ⟨result, next⟩ := outcome
              have failed : ¬(result = 0 ∨ room = 0 ∨ (result = 1 ∧
                  target.cannotUnwind (clearThumb frame) = false ∧ target.Unwinds room next)) := by
                intro steps
                refine fails (.inr ?_)
                rw [step]
                exact steps
              obtain ⟨nonzero, more, stuck⟩ : result ≠ 0 ∧ room ≠ 0 ∧
                  ¬(result = 1 ∧ target.cannotUnwind (clearThumb frame) = false ∧
                    target.Unwinds room next) := by tauto
              rw [unwindFrames_step goes step] at ends
              simp only [if_pos (show result ≠ 0 ∧ count + 1 < size from ⟨nonzero, by omega⟩)] at ends
              rw [chain_step goes step]
              by_cases one : result = 1 ∧ target.cannotUnwind (clearThumb frame) = false
              · have later := ih (fun unwinds => stuck ⟨one.1, one.2, unwinds⟩) (by omega) ends
                rw [if_pos one, List.length_cons]
                omega
              · have later := lt_of_unwindFrames ends
                rw [if_neg one, List.length_singleton]
                exact later

/-- A backtrace ends, stays in its buffer and records the frames of the call chain just when there is room
for a frame, no instructions overrun the virtual registers, and all but the last entry can be unwound. -/
theorem records_iff (target : Target) (size : Nat) (frame : Frame) :
    target.Records size frame ↔ target.Unwinds size frame := by
  constructor
  · intro records
    by_contra fails
    obtain ⟨final, last, ends, _⟩ := records fun _ => {}
    have more := unwindFrames_repeats fails (Nat.zero_add size) ends
    omega
  · intro unwinds buffer
    have run := @unwindFrames_chain target size size (size + 1) 0
      (fun index => if index < size then {} else buffer index) frame unwinds (Nat.zero_add size)
        (Nat.le_succ size)
    obtain ⟨last, ends⟩ := run
    rw [Nat.zero_add] at ends
    refine ⟨_, last, ends, fun index => ?_⟩
    rw [entries, if_neg (Nat.not_lt_zero index), Nat.sub_zero]
    cases found : (target.chain size frame)[index]? with
    | none => rfl
    | some recorded =>
        have inside := (List.getElem?_eq_some_iff.mp found).1
        have bounded := @chain_length target size frame
        simp only [if_pos (show index < size by omega)]

def unsupported : Target :=
  { memory := fun address => if address = 0x10000004 then 0x82000000 else 0
    exidxStart := 0x10000000
    exidxCount := 1
    entryPoint := 0x10000401
    psp := 0x20002000 }

def unsupportedFrame : Frame :=
  { fp := 0x20001000, sp := 0x20001000, lr := 0x10000101, pc := 0x10000100 }

def refusing : Target :=
  { unsupported with memory := fun address => if address = 0x10000004 then 0x808000b0 else 0 }

theorem not_records {target : Target} {size total : Nat} {frame : Frame}
    (ends : (target.backtraceUnwind size (fun _ => {}) frame).map Prod.fst = some total)
    (more : (target.chain size frame).length ≠ total) : ¬target.Records size frame := by
  intro records
  obtain ⟨final, last, recorded, _⟩ := records fun _ => {}
  rw [recorded] at ends
  exact more (Option.some_inj.mp ends)

/-- The frame that cannot be unwound fills the buffer, and so does one whose unwinding is refused; without
any room a frame is written behind the buffer. -/
theorem unsupported_repeats :
    ((unsupported.chain 3 unsupportedFrame).length = 1 ∧
      (unsupported.backtraceUnwind 3 (fun _ => {}) unsupportedFrame).map Prod.fst = some 3) ∧
      ((refusing.chain 3 unsupportedFrame).length = 1 ∧
        (refusing.backtraceUnwind 3 (fun _ => {}) unsupportedFrame).map Prod.fst = some 3) ∧
      ¬unsupported.Records 3 unsupportedFrame ∧ ¬refusing.Records 3 unsupportedFrame ∧
      ¬unsupported.Records 0 unsupportedFrame := by
  have single : (unsupported.chain 3 unsupportedFrame).length = 1 := by decide +kernel
  have filled : (unsupported.backtraceUnwind 3 (fun _ => {}) unsupportedFrame).map Prod.fst = some 3 := by
    decide +kernel
  have refused : (refusing.chain 3 unsupportedFrame).length = 1 := by decide +kernel
  have again : (refusing.backtraceUnwind 3 (fun _ => {}) unsupportedFrame).map Prod.fst = some 3 := by
    decide +kernel
  have beyond : (unsupported.backtraceUnwind 0 (fun _ => {}) unsupportedFrame).map Prod.fst = some 1 := by
    decide +kernel
  refine ⟨⟨single, filled⟩, ⟨refused, again⟩, not_records filled ?_, not_records again ?_,
    not_records beyond ?_⟩
  · rw [single]
    decide
  · rw [refused]
    decide
  · decide

end Target

end PicoToolkit.Fault
