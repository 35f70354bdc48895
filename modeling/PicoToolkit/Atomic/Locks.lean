import Mathlib.Data.List.Nodup
import PicoToolkit.Atomic.Operations
import PicoToolkit.Library.Linearization
import PicoToolkit.Library.Memory
import PicoToolkit.Library.Transition

/-!
`__atomic_lock` and `__atomic_unlock`: sixteen locks of two bits in one register, a bit for each core.
Any number of calls run on two cores; a step is an access to the register or to the variable of the
call.  Calls preempt each other on a core, except where interrupts are masked, and each call stays
on its core.
-/

namespace PicoToolkit.Atomic

open Transition Linearization Memory

def atomicStripe : Word := 4

def atomicLocks : Word := 16

def atomicLockWidth : Word := 2

def atomicLockIdxPos : Nat := 32 - (atomicStripe - 1).clz.toNat

def atomicLockIdxMsk : Word := atomicLocks - 1

def lockIdx (mem : Word) : Word := mem >>> atomicLockIdxPos &&& atomicLockIdxMsk

def lockPos (mem : Word) : Word := lockIdx mem * atomicLockWidth

def lockMask (mem : Word) : Word := (((1 : Word) <<< atomicLockWidth) - 1) <<< lockPos mem

def lockedMask (mem : Word) (core : Fin 2) : Word :=
  (1 : Word) <<< (lockPos mem + BitVec.ofNat 32 core)

def lockBit (mem : Word) (core : Fin 2) : Nat := 2 * (lockIdx mem).toNat + core

section Masks

variable {mem other register : Word} {core : Fin 2}

theorem toNat_lockIdx (mem : Word) : (lockIdx mem).toNat = mem.toNat / 4 % 16 := by
  have position : atomicLockIdxPos = 2 := by decide
  have mask : atomicLockIdxMsk.toNat = 2 ^ 4 - 1 := by decide
  rw [lockIdx, BitVec.toNat_and, mask, Nat.and_two_pow_sub_one_eq_mod, BitVec.toNat_ushiftRight,
    position, Nat.shiftRight_eq_div_pow]

theorem toNat_lockPos (mem : Word) : (lockPos mem).toNat = 2 * (lockIdx mem).toNat := by
  have index := toNat_lockIdx mem
  have two : atomicLockWidth.toNat = 2 := by decide
  rw [lockPos, BitVec.toNat_mul, two]
  omega

theorem getLsbD_lockedMask (mem : Word) (core : Fin 2) (bit : Nat) :
    (lockedMask mem core).getLsbD bit = decide (bit = lockBit mem core) := by
  have index := toNat_lockIdx mem
  have isCore := core.isLt
  have shift : (lockPos mem + BitVec.ofNat 32 core).toNat = lockBit mem core := by
    rw [BitVec.toNat_add, toNat_lockPos, BitVec.toNat_ofNat, lockBit]
    omega
  have bound : lockBit mem core < 32 := by
    rw [lockBit]
    omega
  have power : lockedMask mem core = BitVec.twoPow 32 (lockBit mem core) := by
    rw [lockedMask, BitVec.shiftLeft_eq', shift, BitVec.twoPow_eq]
    rfl
  rw [power, BitVec.getLsbD_twoPow]
  by_cases same : bit = lockBit mem core
  · subst same
    simp [bound]
  · simp [same, Ne.symm same]

theorem getLsbD_lockMask (mem : Word) (core : Fin 2) :
    (lockMask mem).getLsbD (lockBit mem core) = true := by
  have index := toNat_lockIdx mem
  have isCore := core.isLt
  have three : ((1 : Word) <<< atomicLockWidth) - 1 = 3 := by decide
  rw [lockMask, three, BitVec.shiftLeft_eq', toNat_lockPos, BitVec.getLsbD_shiftLeft, lockBit,
    Nat.add_sub_cancel_left]
  have both : ∀ core : Fin 2, (3 : Word).getLsbD core = true := by decide
  simp only [both core, Bool.and_true, Bool.and_eq_true, decide_eq_true_eq, Bool.not_eq_true',
    decide_eq_false_iff_not]
  omega

theorem lockBit_inj {second : Fin 2} (same : lockBit mem core = lockBit other second) :
    lockIdx mem = lockIdx other ∧ core = second := by
  have first := core.isLt
  have last := second.isLt
  simp only [lockBit] at same
  exact ⟨BitVec.eq_of_toNat_eq (by omega), Fin.ext (by omega)⟩

theorem getLsbD_of_taken {second : Fin 2} (different : second ≠ core)
    (taken : register &&& lockMask mem = lockedMask mem core) :
    register.getLsbD (lockBit mem second) = false := by
  have bit := congrArg (fun value => value.getLsbD (lockBit mem second)) taken
  have apart : lockBit mem second ≠ lockBit mem core :=
    fun same => different (lockBit_inj same).2
  simpa [getLsbD_lockMask, getLsbD_lockedMask, apart] using bit

theorem getLsbD_set : (register ||| lockedMask mem core).getLsbD (lockBit mem core) = true := by
  simp [getLsbD_lockedMask]

theorem getLsbD_set_of_getLsbD {bit : Nat} (isSet : register.getLsbD bit = true) :
    (register ||| lockedMask mem core).getLsbD bit = true := by
  simp [isSet]

theorem getLsbD_clear_of_ne {bit : Nat} (different : bit ≠ lockBit mem core)
    (isSet : register.getLsbD bit = true) :
    (register &&& ~~~lockedMask mem core).getLsbD bit = true := by
  have inside := BitVec.lt_of_getLsbD isSet
  rw [BitVec.getLsbD_and, BitVec.getLsbD_not, getLsbD_lockedMask]
  simp [isSet, different, inside]

end Masks

/-- What a call does to its variable, and whether it does so under the lock of the address. -/
structure Routine where
  width : Width
  mem : Word
  locks : Bool := true
  body : Body (BitVec width.bits)

structure Returned where
  width : Width
  outcome : Outcome (BitVec width.bits)
  deriving DecidableEq

inductive Place (Value : Type) where
  | enter
  | set
  | check
  | back
  | inside (body : Body Value)
  | unlock (outcome : Outcome Value)
  | leave (outcome : Outcome Value)
  | over

def settle {Value : Type} : Body Value → Place Value
  | .done outcome => .unlock outcome
  | body => .inside body

section

variable {Call : Type} {routine : Call → Routine}

structure Running (routine : Call → Routine) where
  core : Fin 2
  call : Call
  place : Place (BitVec (routine call).width.bits)

namespace Running

def mem (running : Running routine) : Word := (routine running.call).mem

def goes (running : Running routine)
    (place : Place (BitVec (routine running.call).width.bits)) : Running routine :=
  { running with place := place }

def masks (running : Running routine) : Bool :=
  (routine running.call).locks &&
    match running.place with
    | .enter | .over => false
    | _ => true

def marks (running : Running routine) : Bool :=
  (routine running.call).locks &&
    match running.place with
    | .check | .back | .inside _ | .unlock _ => true
    | _ => false

/-- The call is between `__atomic_lock` and `__atomic_unlock`. -/
def owns (running : Running routine) : Bool :=
  (routine running.call).locks &&
    match running.place with
    | .inside _ | .unlock _ => true
    | _ => false

theorem masks_of_marks {running : Running routine} (marks : running.marks) : running.masks := by
  unfold Running.marks at marks
  unfold masks
  split at marks
  all_goals simp_all

theorem marks_of_owns {running : Running routine} (owns : running.owns) : running.marks := by
  unfold Running.owns at owns
  unfold marks
  split at owns
  all_goals simp_all

end Running

structure Cores (routine : Call → Routine) where
  register : Word
  memory : Bytes
  running : List (Running routine)
  history : List (Event Call Returned)

inductive Action (Call : Type) where
  | call (core : Fin 2) (call : Call)
  | act (index : Nat)

namespace Cores

def masked (state : Cores routine) (core : Fin 2) (index : Nat) : Bool :=
  (List.range state.running.length).any fun other =>
    other != index && (state.running[other]?).any fun running =>
      running.masks && running.core == core

def value (memory : Bytes) (call : Call) : BitVec (routine call).width.bits :=
  read memory (routine call).mem.toNat (routine call).width.bytes

def move (state : Cores routine) (index : Nat) (running : Running routine)
    (place : Place (BitVec (routine running.call).width.bits)) : Cores routine :=
  { state with running := state.running.set index (running.goes place) }

def advance (state : Cores routine) (index : Nat) (running : Running routine) :
    Option (Cores routine) :=
  let mem := running.mem
  match running.place with
  | .enter => some (state.move index running .set)
  | .set =>
      some { state.move index running .check with
        register := state.register ||| lockedMask mem running.core }
  | .check =>
      if state.register &&& lockMask mem = lockedMask mem running.core then
        some (state.move index running (settle (routine running.call).body))
      else some (state.move index running .back)
  | .back =>
      some { state.move index running .set with
        register := state.register &&& ~~~lockedMask mem running.core }
  | .inside (.load next) =>
      some (state.move index running (settle (next (value state.memory running.call))))
  | .inside (.store value outcome) =>
      some { state.move index running (.unlock outcome) with
        memory := write state.memory mem.toNat (routine running.call).width.bytes value }
  | .inside (.done outcome) => some (state.move index running (.unlock outcome))
  | .unlock outcome =>
      some { state.move index running (.leave outcome) with
        register :=
          if (routine running.call).locks then state.register &&& ~~~lockedMask mem running.core
          else state.register }
  | .leave outcome =>
      some { state.move index running .over with
        history := state.history ++ [.respond index ⟨_, outcome⟩] }
  | .over => none

def step (state : Cores routine) : Action Call → Option (Cores routine)
  | .call core call =>
      if state.masked core state.running.length then none
      else
        some { state with
          running := state.running ++
            [⟨core, call, if (routine call).locks then .enter else .inside (routine call).body⟩]
          history := state.history ++ [.invoke state.running.length call] }
  | .act index =>
      match state.running[index]? with
      | none => none
      | some running =>
          if state.masked running.core index then none else state.advance index running

def Begins (memory : Bytes) (state : Cores routine) : Prop :=
  state = ⟨0, memory, [], []⟩

end Cores

def coresSystem (routine : Call → Routine) (memory : Bytes) :
    System (Cores routine) (Action Call) where
  initial := Cores.Begins memory
  step := Cores.step

variable {state next : Cores routine} {index : Nat} {running : Running routine}

theorem unmasked {core : Fin 2} (free : ¬ state.masked core index = true) {other : Nat}
    {second : Running routine} (found : state.running[other]? = some second)
    (different : other ≠ index) (masks : second.masks) : second.core ≠ core := by
  rintro rfl
  refine free ?_
  rw [Cores.masked, List.any_eq_true]
  refine ⟨other, List.mem_range.mpr (List.getElem?_eq_some_iff.mp found).1, ?_⟩
  simp [different, found, masks]

theorem step_act (moved : state.step (.act index) = some next) :
    ∃ running, state.running[index]? = some running ∧
      (∀ other second, state.running[other]? = some second → other ≠ index → second.masks →
        second.core ≠ running.core) ∧ state.advance index running = some next := by
  simp only [Cores.step] at moved
  split at moved
  · cases moved
  · rename_i running found
    split at moved
    · cases moved
    · rename_i free
      exact ⟨running, found, fun _ _ other => unmasked free other, moved⟩

/-- Calls that mask the interrupts are on different cores; the bits of those that have set one are set;
and those between lock and unlock have different locks. -/
structure Sound (state : Cores routine) : Prop where
  alone : ∀ (first second : Nat) (one other : Running routine), state.running[first]? = some one →
    state.running[second]? = some other → first ≠ second → one.masks → other.masks →
      one.core ≠ other.core
  marked : ∀ (first : Nat) (one : Running routine), state.running[first]? = some one → one.marks →
    state.register.getLsbD (lockBit one.mem one.core) = true
  apart : ∀ (first second : Nat) (one other : Running routine), state.running[first]? = some one →
    state.running[second]? = some other → first ≠ second → one.owns → other.owns →
      lockIdx one.mem ≠ lockIdx other.mem

theorem getElem?_move {place : Place (BitVec (routine running.call).width.bits)} {other : Nat}
    {second : Running routine}
    (found : (state.running.set index (running.goes place))[other]? = some second) :
    other = index ∧ second = running.goes place ∨
      other ≠ index ∧ state.running[other]? = some second := by
  by_cases same : other = index
  · subst same
    rw [List.getElem?_set_self' ] at found
    obtain ⟨_, _, rfl⟩ := Option.map_eq_some_iff.mp found
    exact Or.inl ⟨rfl, rfl⟩
  · rw [List.getElem?_set_ne (Ne.symm same)] at found
    exact Or.inr ⟨same, found⟩

namespace Sound

theorem change (sound : Sound state)
    (masks : ∀ other second, state.running[other]? = some second → other ≠ index → second.masks →
      second.core ≠ running.core)
    {place : Place (BitVec (routine running.call).width.bits)} {after : Cores routine}
    (moves : after.running = state.running.set index (running.goes place))
    (kept : ∀ other second, state.running[other]? = some second → other ≠ index → second.marks →
      after.register.getLsbD (lockBit second.mem second.core) = true)
    (own : (running.goes place).marks →
      after.register.getLsbD (lockBit running.mem running.core) = true)
    (takes : (running.goes place).owns → ∀ other second, state.running[other]? = some second →
      other ≠ index → second.owns → lockIdx running.mem ≠ lockIdx second.mem) : Sound after := by
  constructor
  · intro first second one other foundOne foundOther different masksOne masksOther
    rw [moves] at foundOne foundOther
    rcases getElem?_move foundOne with ⟨rfl, rfl⟩ | ⟨neOne, wasOne⟩
    · rcases getElem?_move foundOther with ⟨rfl, rfl⟩ | ⟨neOther, wasOther⟩
      · exact (different rfl).elim
      · exact (masks second other wasOther neOther masksOther).symm
    · rcases getElem?_move foundOther with ⟨rfl, rfl⟩ | ⟨neOther, wasOther⟩
      · exact masks first one wasOne neOne masksOne
      · exact sound.alone first second one other wasOne wasOther different masksOne masksOther
  · intro first one foundOne marks
    rw [moves] at foundOne
    rcases getElem?_move foundOne with ⟨rfl, rfl⟩ | ⟨neOne, wasOne⟩
    · exact own marks
    · exact kept first one wasOne neOne marks
  · intro first second one other foundOne foundOther different ownsOne ownsOther
    rw [moves] at foundOne foundOther
    rcases getElem?_move foundOne with ⟨rfl, rfl⟩ | ⟨neOne, wasOne⟩
    · rcases getElem?_move foundOther with ⟨rfl, rfl⟩ | ⟨neOther, wasOther⟩
      · exact (different rfl).elim
      · exact takes ownsOne second other wasOther neOther ownsOther
    · rcases getElem?_move foundOther with ⟨rfl, rfl⟩ | ⟨neOther, wasOther⟩
      · exact (takes ownsOther first one wasOne neOne ownsOne).symm
      · exact sound.apart first second one other wasOne wasOther different ownsOne ownsOther

theorem stay (sound : Sound state) (found : state.running[index]? = some running)
    (masks : ∀ other second, state.running[other]? = some second → other ≠ index → second.masks →
      second.core ≠ running.core)
    {place : Place (BitVec (routine running.call).width.bits)} {after : Cores routine}
    (moves : after.running = state.running.set index (running.goes place))
    (register : after.register = state.register)
    (marks : (running.goes place).marks → running.marks)
    (owns : (running.goes place).owns → running.owns) : Sound after := by
  apply sound.change masks moves
  · intro other second foundOther _ marksOther
    rw [register]
    exact sound.marked other second foundOther marksOther
  · intro isMarked
    rw [register]
    exact sound.marked index running found (marks isMarked)
  · intro isOwner other second foundOther different ownsOther
    exact sound.apart index other running second found foundOther (Ne.symm different)
      (owns isOwner) ownsOther

theorem clear (sound : Sound state)
    (masks : ∀ other second, state.running[other]? = some second → other ≠ index → second.masks →
      second.core ≠ running.core)
    {place : Place (BitVec (routine running.call).width.bits)} {after : Cores routine}
    (moves : after.running = state.running.set index (running.goes place))
    (register : after.register = state.register &&& ~~~lockedMask running.mem running.core)
    (unmarked : (running.goes place).marks = false) : Sound after := by
  apply sound.change masks moves
  · intro other second foundOther different marksOther
    rw [register]
    refine getLsbD_clear_of_ne ?_ (sound.marked other second foundOther marksOther)
    intro same
    exact masks other second foundOther different (Running.masks_of_marks marksOther)
      (lockBit_inj same).2
  · intro marks
    rw [unmarked] at marks
    cases marks
  · intro owns
    rw [Running.marks_of_owns owns] at unmarked
    cases unmarked

theorem take (sound : Sound state) (found : state.running[index]? = some running)
    (masks : ∀ other second, state.running[other]? = some second → other ≠ index → second.masks →
      second.core ≠ running.core)
    (taken : state.register &&& lockMask running.mem = lockedMask running.mem running.core)
    {place : Place (BitVec (routine running.call).width.bits)}
    (marks : (running.goes place).marks → running.marks) :
    Sound (state.move index running place) := by
  apply sound.change masks rfl
  · intro other second foundOther _ marksOther
    exact sound.marked other second foundOther marksOther
  · intro isMarked
    exact sound.marked index running found (marks isMarked)
  · intro _ other second foundOther different ownsOther same
    have marksOther := Running.marks_of_owns ownsOther
    have otherCore := masks other second foundOther different (Running.masks_of_marks marksOther)
    have isSet := sound.marked other second foundOther marksOther
    have isClear := getLsbD_of_taken otherCore taken
    rw [lockBit, same, ← lockBit, isSet] at isClear
    cases isClear

theorem advance (sound : Sound state) (found : state.running[index]? = some running)
    (masks : ∀ other second, state.running[other]? = some second → other ≠ index → second.masks →
      second.core ≠ running.core)
    (moved : state.advance index running = some next) : Sound next := by
  simp only [Cores.advance] at moved
  split at moved
  case h_1 place =>
    obtain rfl := Option.some_inj.mp moved
    exact sound.stay found masks rfl rfl (by simp [Running.marks, Running.goes])
      (by simp [Running.owns, Running.goes])
  case h_2 place =>
    obtain rfl := Option.some_inj.mp moved
    apply sound.change masks rfl
    · intro other second foundOther _ marksOther
      exact getLsbD_set_of_getLsbD (sound.marked other second foundOther marksOther)
    · intro _
      exact getLsbD_set
    · simp [Running.owns, Running.goes]
  case h_3 place =>
    split at moved
    · rename_i taken
      obtain rfl := Option.some_inj.mp moved
      refine sound.take found masks taken ?_
      simp only [Running.marks, Running.goes, place, Bool.and_eq_true]
      exact fun marks => ⟨marks.1, trivial⟩
    · obtain rfl := Option.some_inj.mp moved
      refine sound.stay found masks rfl rfl ?_ (by simp [Running.owns, Running.goes])
      simp [Running.marks, Running.goes, place]
  case h_4 place =>
    obtain rfl := Option.some_inj.mp moved
    exact sound.clear masks rfl rfl (by simp [Running.marks, Running.goes])
  case h_5 body place =>
    obtain rfl := Option.some_inj.mp moved
    refine sound.stay found masks rfl rfl ?_ ?_
    · simp only [Running.marks, Running.goes, place, Bool.and_eq_true]
      exact fun marks => ⟨marks.1, trivial⟩
    · simp only [Running.owns, Running.goes, place, Bool.and_eq_true]
      exact fun owns => ⟨owns.1, trivial⟩
  case h_6 value outcome place =>
    obtain rfl := Option.some_inj.mp moved
    refine sound.stay found masks rfl rfl ?_ ?_
    · simp [Running.marks, Running.goes, place]
    · simp [Running.owns, Running.goes, place]
  case h_7 outcome place =>
    obtain rfl := Option.some_inj.mp moved
    refine sound.stay found masks rfl rfl ?_ ?_
    · simp [Running.marks, Running.goes, place]
    · simp [Running.owns, Running.goes, place]
  case h_8 outcome place =>
    obtain rfl := Option.some_inj.mp moved
    by_cases locks : (routine running.call).locks
    · exact sound.clear masks rfl (if_pos locks) (by simp [Running.marks, Running.goes])
    · exact sound.stay found masks rfl (if_neg locks) (by simp [Running.marks, Running.goes])
        (by simp [Running.owns, Running.goes])
  case h_9 outcome place =>
    obtain rfl := Option.some_inj.mp moved
    exact sound.stay found masks rfl rfl (by simp [Running.marks, Running.goes])
      (by simp [Running.owns, Running.goes])
  case h_10 place => cases moved

end Sound

theorem getElem?_concat {list : List (Running routine)} {last one : Running routine} {first : Nat}
    (found : (list ++ [last])[first]? = some one) :
    list[first]? = some one ∨ first = list.length ∧ one = last := by
  by_cases inside : first < list.length
  · rw [List.getElem?_append_left inside] at found
    exact Or.inl found
  · have bound := (List.getElem?_eq_some_iff.mp found).1
    rw [List.length_append, List.length_singleton] at bound
    obtain rfl : first = list.length := by omega
    rw [List.getElem?_concat_length] at found
    exact Or.inr ⟨rfl, (Option.some_inj.mp found).symm⟩

theorem Sound.call (sound : Sound state) {new : Running routine} (unmasked : new.masks = false)
    {after : Cores routine} (register : after.register = state.register)
    (more : after.running = state.running ++ [new]) : Sound after := by
  have unmarked : ¬ new.marks = true := fun marks => by
    rw [Running.masks_of_marks marks] at unmasked
    cases unmasked
  constructor
  · intro first second one other foundOne foundOther different masksOne masksOther
    rw [more] at foundOne foundOther
    rcases getElem?_concat foundOne with wasOne | ⟨_, rfl⟩
    · rcases getElem?_concat foundOther with wasOther | ⟨_, rfl⟩
      · exact sound.alone first second one other wasOne wasOther different masksOne masksOther
      · rw [unmasked] at masksOther
        cases masksOther
    · rw [unmasked] at masksOne
      cases masksOne
  · intro first one foundOne marks
    rw [more] at foundOne
    rw [register]
    rcases getElem?_concat foundOne with wasOne | ⟨_, rfl⟩
    · exact sound.marked first one wasOne marks
    · exact (unmarked marks).elim
  · intro first second one other foundOne foundOther different ownsOne ownsOther
    rw [more] at foundOne foundOther
    rcases getElem?_concat foundOne with wasOne | ⟨_, rfl⟩
    · rcases getElem?_concat foundOther with wasOther | ⟨_, rfl⟩
      · exact sound.apart first second one other wasOne wasOther different ownsOne ownsOther
      · exact (unmarked (Running.marks_of_owns ownsOther)).elim
    · exact (unmarked (Running.marks_of_owns ownsOne)).elim

theorem step_call {core : Fin 2} {call : Call} (moved : state.step (.call core call) = some next) :
    next = { state with
      running := state.running ++
        [⟨core, call, if (routine call).locks then .enter else .inside (routine call).body⟩]
      history := state.history ++ [.invoke state.running.length call] } := by
  simp only [Cores.step] at moved
  split at moved
  · cases moved
  · exact (Option.some_inj.mp moved).symm

theorem Sound.step (sound : Sound state) {action : Action Call}
    (moved : state.step action = some next) : Sound next := by
  cases action with
  | call core call =>
      obtain rfl := step_call moved
      refine sound.call ?_ rfl rfl
      rw [Running.masks]
      by_cases locks : (routine call).locks
      · simp [locks]
      · simp [locks]
  | act index =>
      obtain ⟨running, found, masks, moved⟩ := step_act moved
      exact sound.advance found masks moved

theorem sound_of_begins {memory : Bytes} (begins : Cores.Begins memory state) : Sound state := by
  subst begins
  exact ⟨fun _ _ _ _ found => by simp at found, fun _ _ found => by simp at found,
    fun _ _ _ _ found => by simp at found⟩

theorem sound_of_guarded {guard : Cores routine → Action Call → Prop} {memory : Bytes}
    (reached : (coresSystem routine memory).Guarded guard state) : Sound state :=
  reached.invariant (fun _ begins => sound_of_begins begins) fun _ _ _ sound _ moved =>
    sound.step moved

end

end PicoToolkit.Atomic
