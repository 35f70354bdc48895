import PicoToolkit.Threads.Joining
import PicoToolkit.Threads.TryLock

/-!
The deadlines of `mtx_timedlock` and `cnd_timedwait`: which of them lead to a lock or a wait, and with
how many ticks.
-/

namespace PicoToolkit

open Interleaving Tag

/-- `struct timespec`, whose `time_t` has 64 bits. -/
structure Timespec where
  tvSec : BitVec 64
  tvNsec : BitVec 32

/-- The conversion to ticks, in which the nanoseconds are divided as a `long`. -/
def Timespec.tmTicks (tm : Timespec) : BitVec 64 :=
  tm.tvSec * 1000 + (tm.tvNsec.sdiv 1000000).signExtend 64

def Timespec.deadline (tm : Timespec) : Nat := tm.tvSec.toNat * 1000 + tm.tvNsec.toNat / 1000000

def remainingTicks (ticks : Word) (tm : Timespec) : Option Word :=
  if ticks.setWidth 64 < tm.tmTicks ∨ 0xffffffff ≤ tm.tmTicks - ticks.setWidth 64 then none
  else some ((tm.tmTicks - ticks.setWidth 64).setWidth 32)

/-- `mtx_timedlock` on a mutex that is timed or not. -/
def timedlockAlone (mtx : Mtx) (timed : Bool) (self ticks : Word) (tm : Timespec)
    (memory : Word → Word) : Option ((Word → Word) × (ThrdReturn ⊕ Request)) :=
  if timed = false then some (memory, .inl (.thrdError, some (.error .einval)))
  else
    match remainingTicks ticks tm with
    | none => some (memory, .inl (.thrdTimedout, none))
    | some msec => runAlone serveNone (mtxLockFor mtx self msec) 3 .owned memory

/-- `cnd_t`: the addresses of its words, and its futex. -/
structure CndWords where
  mutex : Word
  sequence : Word
  futex : Word

/-- In `_cnd_wait`: the load of the sequence, the tests whether the mutex is bound, with the
compare-exchange between them, the unlock, the wait and the lock. -/
inductive CndWaitPlace where
  | sequence
  | bound (sequence : Word)
  | bind (sequence : Word)
  | boundNow (sequence : Word)
  | unlock (sequence : Word) (place : UnlockPlace)
  | wait (sequence : Word)
  | lock (status : Result) (place : LockPlace)

/-- What `_cnd_wait` returns for the status of its wait, with the number that it leaves in `errno`. -/
def cndReturn (status : Result) : ThrdReturn :=
  (cndStatus status, if status.negative then some status else none)

def cndWaitFor (cnd : CndWords) (address : Word) (mtx : Mtx) (self msec : Word) :
    CndWaitPlace → ThreadOp Unit (CndWaitPlace ⊕ ThrdReturn)
  | .sequence => .word cnd.sequence fun value => (value, .inl (.bound value))
  | .bound sequence => .word cnd.mutex fun value =>
      (value, .inl (if value ≠ address then .bind sequence else .unlock sequence .owned))
  | .bind sequence => .word cnd.mutex fun value =>
      (if value = 0 then address else value, .inl (.boundNow sequence))
  | .boundNow sequence => .word cnd.mutex fun value =>
      (value, if value ≠ address then .inr (.thrdError, some (.error .einval))
      else .inl (.unlock sequence .owned))
  | .unlock sequence place =>
      (mtxUnlock mtx self place).map fun
        | .inl place => .inl (.unlock sequence place)
        | .inr _ => .inl (.wait sequence)
  | .wait sequence => .service (.wait cnd.futex sequence msec) fun status => .inl (.lock status .owned)
  | .lock status place =>
      (mtxLock mtx self place).map fun
        | .inl place => .inl (.lock status place)
        | .inr _ => .inr (cndReturn status)

def serveWakes (wake : Word → Bool → (Word → Word) → Result × (Word → Word)) :
    Request → (Word → Word) → Option (Result × (Word → Word))
  | .wake futex all, memory => some (wake futex all memory)
  | _, _ => none

/-- `cnd_timedwait` up to its wait, to which there are at most ten steps. -/
def timedwaitAlone (wake : Word → Bool → (Word → Word) → Result × (Word → Word)) (cnd : CndWords)
    (address : Word) (mtx : Mtx) (self ticks : Word) (tm : Timespec) (memory : Word → Word) :
    Option ((Word → Word) × (ThrdReturn ⊕ Request)) :=
  match remainingTicks ticks tm with
  | none => some (memory, .inl (.thrdTimedout, none))
  | some msec => runAlone (serveWakes wake) (cndWaitFor cnd address mtx self msec) 10 .sequence memory

def Succeeds (outcome : Option ((Word → Word) × (ThrdReturn ⊕ Request))) : Prop :=
  ∃ memory errno, outcome = some (memory, .inl (.thrdSuccess, errno))

/-- A deadline in the future leads to a wait for the ticks up to it, and another one to `thrd_timedout`
without a wait. -/
def MeetsDeadline (futex : Word) (now deadline : Nat)
    (outcome : Option ((Word → Word) × (ThrdReturn ⊕ Request))) : Prop :=
  if now < deadline then
    ∃ memory expected ticks, outcome = some (memory, .inr (.wait futex expected ticks)) ∧
      ticks.toNat = deadline - now
  else ∃ memory errno, outcome = some (memory, .inl (.thrdTimedout, errno))

section Conversion

variable {tm : Timespec} {now : Word}

theorem tmTicks_toNat (normal : tm.tvNsec.toNat < 1000000000) (reached : tm.deadline < 2 ^ 33) :
    tm.tmTicks.toNat = tm.deadline := by
  have seconds : tm.tvSec.toNat * 1000 < 2 ^ 33 :=
    Nat.lt_of_le_of_lt (Nat.le_add_right _ _) reached
  have positive : tm.tvNsec.msb = false := by
    rw [BitVec.msb_eq_false_iff_two_mul_lt]
    omega
  have quotient : (tm.tvNsec.sdiv 1000000).toNat = tm.tvNsec.toNat / 1000000 := by
    have divisor : (1000000 : BitVec 32).msb = false := by decide
    have literal : (1000000 : BitVec 32).toNat = 1000000 := by simp
    simp only [BitVec.sdiv_eq, positive, divisor]
    change (tm.tvNsec / 1000000).toNat = _
    rw [BitVec.toNat_udiv, literal]
  have small : (tm.tvNsec.sdiv 1000000).msb = false := by
    rw [BitVec.msb_eq_false_iff_two_mul_lt, quotient]
    omega
  rw [Timespec.tmTicks, BitVec.toNat_add, BitVec.toNat_mul, BitVec.signExtend_eq_setWidth_of_msb_false
    small, BitVec.toNat_setWidth, quotient, Timespec.deadline]
  have thousand : (1000 : BitVec 64).toNat = 1000 := rfl
  rw [thousand]
  omega

theorem remainingTicks_eq (normal : tm.tvNsec.toNat < 1000000000)
    (window : tm.deadline < now.toNat + 2 ^ 32) :
    remainingTicks now tm = if tm.deadline = now.toNat then some 0 else none := by
  have bound := now.isLt
  have exact := tmTicks_toNat normal (by omega)
  have extended : (now.setWidth 64).toNat = now.toNat := by
    rw [BitVec.toNat_setWidth]
    omega
  have difference : (tm.tmTicks - now.setWidth 64).toNat =
      (2 ^ 64 - now.toNat + tm.deadline) % 2 ^ 64 := by
    rw [BitVec.toNat_sub, exact, extended]
  have limit : (0xffffffff : BitVec 64).toNat = 0xffffffff := rfl
  rw [remainingTicks]
  by_cases due : tm.deadline = now.toNat
  · rw [if_pos due, if_neg]
    · have none : tm.tmTicks - now.setWidth 64 = 0 := by
        apply BitVec.eq_of_toNat_eq
        rw [difference]
        change _ = 0
        omega
      rw [none]
      rfl
    · rw [BitVec.lt_def, BitVec.le_def, exact, extended, difference, limit]
      omega
  · rw [if_neg due, if_pos]
    rw [BitVec.lt_def, BitVec.le_def, exact, extended, difference, limit]
    omega

end Conversion

section Calls

variable {mtx : Mtx} {self msec : Word} {memory : Word → Word}
  {wake : Word → Bool → (Word → Word) → Result × (Word → Word)} {cnd : CndWords}
  {address sequence : Word}

/-- The rest of `cnd_timedwait` comes to its wait. -/
def ComesToWait (wake : Word → Bool → (Word → Word) → Result × (Word → Word)) (cnd : CndWords)
    (address : Word) (mtx : Mtx) (self msec sequence : Word) (fuel : Nat) (place : CndWaitPlace)
    (memory : Word → Word) : Prop :=
  ∃ after, runAlone (serveWakes wake) (cndWaitFor cnd address mtx self msec) fuel place memory =
    some (after, .inr (.wait cnd.futex sequence msec))

theorem comesToWait_wait (fuel : Nat) :
    ComesToWait wake cnd address mtx self msec sequence (fuel + 1) (.wait sequence) memory :=
  ⟨memory, rfl⟩

theorem comesToWait_word {fuel : Nat} {place next : CndWaitPlace} {word : Word}
    {act : Word → Word × (CndWaitPlace ⊕ ThrdReturn)}
    (isWord : cndWaitFor cnd address mtx self msec place = .word word act)
    (goes : (act (memory word)).2 = .inl next)
    (rest : ComesToWait wake cnd address mtx self msec sequence fuel next
      (Function.update memory word (act (memory word)).1)) :
    ComesToWait wake cnd address mtx self msec sequence (fuel + 1) place memory := by
  obtain ⟨after, reaches⟩ := rest
  refine ⟨after, ?_⟩
  rw [runAlone, isWord]
  simp only [goes, reaches]

theorem comesToWait_wake (fuel : Nat) :
    ComesToWait wake cnd address mtx self msec sequence (fuel + 2) (.unlock sequence .wake) memory :=
  ⟨_, rfl⟩

theorem comesToWait_exchange (fuel : Nat) :
    ComesToWait wake cnd address mtx self msec sequence (fuel + 3) (.unlock sequence .exchange)
      memory := by
  by_cases own : memory mtx.value = self
  · exact comesToWait_word rfl (by simp only [own, if_true]) (comesToWait_wait (fuel + 1))
  · exact comesToWait_word rfl (by simp only [if_neg own]) (comesToWait_wake fuel)

theorem comesToWait_load (fuel : Nat) :
    ComesToWait wake cnd address mtx self msec sequence (fuel + 4) (.unlock sequence .load)
      memory := by
  by_cases own : memory mtx.value = self
  · exact comesToWait_word rfl (by simp only [own, if_true]) (comesToWait_exchange fuel)
  · exact comesToWait_word rfl (by simp only [if_neg own]) (comesToWait_wake (fuel + 1))

theorem comesToWait_count (fuel : Nat) :
    ComesToWait wake cnd address mtx self msec sequence (fuel + 5) (.unlock sequence .count)
      memory := by
  by_cases deeper : 0 < (memory mtx.count - 1).toInt
  · exact comesToWait_word rfl (by simp only [if_pos deeper]) (comesToWait_wait (fuel + 3))
  · exact comesToWait_word rfl (by simp only [if_neg deeper]) (comesToWait_load fuel)

theorem comesToWait_unlock (fuel : Nat) :
    ComesToWait wake cnd address mtx self msec sequence (fuel + 6) (.unlock sequence .owned)
      memory := by
  by_cases foreign : self ≠ untag (memory mtx.value)
  · exact comesToWait_word rfl (by simp only [if_pos foreign]) (comesToWait_wait (fuel + 4))
  · cases recursive : mtx.recursive with
    | true =>
        exact comesToWait_word rfl (by simp only [if_neg foreign, recursive, if_true])
          (comesToWait_count fuel)
    | false =>
        exact comesToWait_word rfl
          (by simp only [if_neg foreign, recursive, Bool.false_eq_true, if_false])
          (comesToWait_load (fuel + 1))

theorem comesToWait_sequence (bound : memory cnd.mutex = 0 ∨ memory cnd.mutex = address) :
    ComesToWait wake cnd address mtx self msec (memory cnd.sequence) 10 .sequence memory := by
  refine comesToWait_word rfl rfl ?_
  rw [Function.update_eq_self]
  by_cases own : memory cnd.mutex = address
  · exact comesToWait_word rfl (by simp only [own, ne_eq, not_true_eq_false, if_false])
      (comesToWait_unlock 2)
  · have unbound : memory cnd.mutex = 0 := bound.resolve_right own
    refine comesToWait_word rfl (congrArg Sum.inl (if_pos own)) ?_
    refine comesToWait_word rfl rfl ?_
    exact comesToWait_word rfl
      (by simp only [Function.update_self, unbound, if_true, ne_eq, not_true_eq_false, if_false])
      (comesToWait_unlock 0)

end Calls

/-- `mtx_timedlock` takes a free mutex exactly if the deadline is now; on a mutex of another task, and in
`cnd_timedwait`, a deadline is met exactly if it is over.  The conversion of the deadline is exact. -/
theorem deadlines_iff {mtx : Mtx} {self now : Word} {tm : Timespec} (nonzero : self ≠ 0)
    (normal : tm.tvNsec.toNat < 1000000000) (window : tm.deadline < now.toNat + 2 ^ 32) :
    tm.tmTicks.toNat = tm.deadline ∧
    (∀ memory, memory mtx.value = 0 →
      (Succeeds (timedlockAlone mtx true self now tm memory) ↔ tm.deadline = now.toNat)) ∧
    (∀ memory, memory mtx.value ≠ 0 → untag (memory mtx.value) ≠ self →
      (MeetsDeadline mtx.futex now.toNat tm.deadline (timedlockAlone mtx true self now tm memory) ↔
        tm.deadline < now.toNat)) ∧
    (∀ wake cnd address memory, memory cnd.mutex = 0 ∨ memory cnd.mutex = address →
      (MeetsDeadline cnd.futex now.toNat tm.deadline
          (timedwaitAlone wake cnd address mtx self now tm memory) ↔
        tm.deadline < now.toNat)) := by
  have bound := now.isLt
  have remaining := remainingTicks_eq normal window
  refine ⟨tmTicks_toNat normal (by omega), fun memory free => ?_, fun memory held other => ?_,
    fun wake cnd address memory binds => ?_⟩
  · by_cases due : tm.deadline = now.toNat
    · rw [timedlockAlone, if_neg (by decide), remaining, if_pos due]
      exact iff_of_true ⟨_, _, lockFor_free nonzero free⟩ due
    · rw [timedlockAlone, if_neg (by decide), remaining, if_neg due]
      refine iff_of_false ?_ due
      rintro ⟨after, errno, same⟩
      simp at same
  · by_cases due : tm.deadline = now.toNat
    · rw [timedlockAlone, if_neg (by decide), remaining, if_pos due, MeetsDeadline, if_neg (by omega)]
      refine iff_of_false ?_ (by omega)
      rintro ⟨after, errno, same⟩
      simp [lockFor_held held other] at same
    · rw [timedlockAlone, if_neg (by decide), remaining, if_neg due, MeetsDeadline]
      split
      next future =>
        refine iff_of_false ?_ (by omega)
        rintro ⟨after, expected, ticks, same, _⟩
        simp at same
      next => exact iff_of_true ⟨_, _, rfl⟩ (by omega)
  · by_cases due : tm.deadline = now.toNat
    · rw [timedwaitAlone, remaining, if_pos due, MeetsDeadline, if_neg (by omega)]
      refine iff_of_false ?_ (by omega)
      rintro ⟨after, errno, same⟩
      have arrives : ComesToWait wake cnd address mtx self 0 (memory cnd.sequence) 10 .sequence
          memory := comesToWait_sequence binds
      obtain ⟨waits, reaches⟩ := arrives
      have apart := reaches.symm.trans same
      simp at apart
    · rw [timedwaitAlone, remaining, if_neg due, MeetsDeadline]
      split
      next future =>
        refine iff_of_false ?_ (by omega)
        rintro ⟨after, expected, ticks, same, _⟩
        simp at same
      next => exact iff_of_true ⟨_, _, rfl⟩ (by omega)

theorem deadlines_iff_now :
    Succeeds (timedlockAlone recursiveMtx true 0x1000 1000 ⟨1, 0⟩ fun _ => 0) :=
  ((deadlines_iff (by decide) (by decide) (by decide)).2.1 _ rfl).mpr (by decide)

theorem not_timedlock_free :
    ¬∀ (mtx : Mtx) (self now : Word) (tm : Timespec) (memory : Word → Word), self ≠ 0 →
      tm.tvNsec.toNat < 1000000000 → tm.deadline < now.toNat + 2 ^ 32 → memory mtx.value = 0 →
      Succeeds (timedlockAlone mtx true self now tm memory) := by
  intro claimed
  obtain ⟨after, errno, same⟩ := claimed recursiveMtx 0x1000 1000 ⟨2, 0⟩ (fun _ => 0) (by decide)
    (by decide) (by decide) rfl
  have missed : remainingTicks 1000 ⟨2, 0⟩ = none := by decide
  rw [timedlockAlone, if_neg (by decide), missed] at same
  simp at same

end PicoToolkit
