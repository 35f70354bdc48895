import PicoToolkit.Atomic.Operations
import PicoToolkit.Library.Interleaving

/-!
Ticket spinlocks: the upper half of the word is the next ticket, the lower half the ticket that is
served.  Any number of contenders; a step is an atomic operation or a load.
-/

namespace PicoToolkit.Spinlock

open Transition Atomic Interleaving

def upper (word : Word) : BitVec 16 := (word >>> 16).setWidth 16

def lower (word : Word) : BitVec 16 := word.setWidth 16

inductive SpinPlace where
  | idle
  /-- In the loop of `spin_lock`. -/
  | wait (ticket : BitVec 16)
  /-- In `spin_try_lock`, before the compare-exchange. -/
  | trying (value : Word)
  | held
  deriving DecidableEq

/-- The contender has a ticket that has not been given back. -/
def SpinPlace.outstanding : SpinPlace → Bool
  | .wait _ | .held => true
  | _ => false

/-- The lock and its contenders; who has fetched a ticket in `spin_lock`, and who of these has obtained
the lock, in their order. -/
structure Lock where
  word : Word
  places : List SpinPlace
  fetched : List Nat := []
  obtained : List Nat := []

inductive LockAction where
  | arrive
  | lock (index : Nat)
  | look (index : Nat)
  | tryLock (index : Nat)
  | exchange (index : Nat)
  | unlock (index : Nat)

namespace Lock

def move (lock : Lock) (word : Word) (index : Nat) (place : SpinPlace) : Lock :=
  { lock with word := word, places := lock.places.set index place }

section Move

variable (lock : Lock) (word : Word) (index : Nat) (place : SpinPlace)

@[simp]
theorem move_word : (lock.move word index place).word = word := rfl

@[simp]
theorem move_places : (lock.move word index place).places = lock.places.set index place := rfl

@[simp]
theorem move_fetched : (lock.move word index place).fetched = lock.fetched := rfl

@[simp]
theorem move_obtained : (lock.move word index place).obtained = lock.obtained := rfl

end Move

/-- `atomic_fetch_add(spinlock, 1UL << 16) >> 16` -/
def spinLock (lock : Lock) (index : Nat) : Lock :=
  { lock.move ((atomicFetchAdd4 ((1 : Word) <<< 16)).run lock.word).2 index
      (.wait (upper lock.word)) with
    fetched := lock.fetched ++ [index] }

-- over a lock that is not taken apart, the words would be compared
theorem spinLock_obtained (lock : Lock) (index : Nat) :
    (lock.spinLock index).obtained = lock.obtained := by
  obtain ⟨word, places, fetched, obtained⟩ := lock
  exact (rfl : _ = obtained)

/-- `while ((*spinlock & 0xffff) != ticket)` -/
def look (lock : Lock) (index : Nat) (ticket : BitVec 16) : Lock :=
  if lock.word &&& 0xffff ≠ ticket.setWidth 32 then lock
  else { lock.move lock.word index .held with obtained := lock.obtained ++ [index] }

/-- `if ((value >> 16) != (value & 0xffff)) return false;` -/
def spinTryLock (lock : Lock) (index : Nat) : Lock :=
  if lock.word >>> 16 ≠ lock.word &&& 0xffff then lock
  else lock.move lock.word index (.trying lock.word)

/-- `atomic_compare_exchange_strong(spinlock, &value, value + (1UL << 16))` -/
def exchange (lock : Lock) (index : Nat) (value : Word) : Lock :=
  let result := (atomicCompareExchange4 value (value + (1 : Word) <<< 16)).run lock.word
  match result.1 with
  | .compared true _ => lock.move result.2 index .held
  | _ => lock.move result.2 index .idle

/-- `atomic_fetch_add((uint16_t *)spinlock, 1)` -/
def spinUnlock (lock : Lock) (index : Nat) : Lock :=
  lock.move (upper lock.word ++ ((atomicFetchAdd2 1).run (lower lock.word)).2) index .idle

def step (lock : Lock) : LockAction → Option Lock
  | .arrive => some { lock with places := lock.places ++ [.idle] }
  | .lock index =>
      match lock.places[index]? with
      | some .idle => some (lock.spinLock index)
      | _ => none
  | .look index =>
      match lock.places[index]? with
      | some (.wait ticket) => some (lock.look index ticket)
      | _ => none
  | .tryLock index =>
      match lock.places[index]? with
      | some .idle => some (lock.spinTryLock index)
      | _ => none
  | .exchange index =>
      match lock.places[index]? with
      | some (.trying value) => some (lock.exchange index value)
      | _ => none
  | .unlock index =>
      match lock.places[index]? with
      | some .held => some (lock.spinUnlock index)
      | _ => none

def Begins (lock : Lock) : Prop :=
  upper lock.word = lower lock.word ∧ lock = { word := lock.word, places := [] }

def FewTickets (lock : Lock) : LockAction → Prop
  | .lock _ => lock.places.countP SpinPlace.outstanding + 1 < 65536
  | _ => True

end Lock

abbrev lockSystem : System Lock LockAction where
  initial := Lock.Begins
  step := Lock.step

section Halves

variable {word value : Word}

theorem toNat_upper (word : Word) : (upper word).toNat = word.toNat / 65536 := by
  have below := word.isLt
  rw [upper, BitVec.toNat_setWidth, BitVec.toNat_ushiftRight, Nat.shiftRight_eq_div_pow]
  omega

theorem toNat_lower (word : Word) : (lower word).toNat = word.toNat % 65536 := by
  rw [lower, BitVec.toNat_setWidth]

theorem toNat_and_ffff (word : Word) : (word &&& 0xffff).toNat = word.toNat % 65536 := by
  have mask : (0xffff : Word).toNat = 2 ^ 16 - 1 := by decide
  rw [BitVec.toNat_and, mask, Nat.and_two_pow_sub_one_eq_mod]

theorem toNat_one_shiftLeft : ((1 : Word) <<< 16).toNat = 65536 := by decide

theorem upper_add (word : Word) : upper (word + (1 : Word) <<< 16) = upper word + 1 := by
  have below := word.isLt
  refine BitVec.eq_of_toNat_eq ?_
  have one : (1 : BitVec 16).toNat = 1 := by decide
  rw [toNat_upper, BitVec.toNat_add, BitVec.toNat_add, toNat_upper, toNat_one_shiftLeft, one]
  omega

theorem lower_add (word : Word) : lower (word + (1 : Word) <<< 16) = lower word := by
  have below := word.isLt
  refine BitVec.eq_of_toNat_eq ?_
  rw [toNat_lower, toNat_lower, BitVec.toNat_add, toNat_one_shiftLeft]
  omega

theorem upper_append (high low : BitVec 16) : upper (high ++ low) = high := by
  refine BitVec.eq_of_toNat_eq ?_
  have below := low.isLt
  rw [toNat_upper, BitVec.toNat_append, Nat.shiftLeft_eq, Nat.mul_comm,
    ← Nat.two_pow_add_eq_or_of_lt below]
  omega

theorem lower_append (high low : BitVec 16) : lower (high ++ low) = low := by
  refine BitVec.eq_of_toNat_eq ?_
  have below := low.isLt
  rw [toNat_lower, BitVec.toNat_append, Nat.shiftLeft_eq, Nat.mul_comm,
    ← Nat.two_pow_add_eq_or_of_lt below]
  omega

theorem and_ffff_eq_iff {ticket : BitVec 16} :
    word &&& 0xffff = ticket.setWidth 32 ↔ lower word = ticket := by
  have below := ticket.isLt
  rw [← BitVec.toNat_inj, ← BitVec.toNat_inj, toNat_and_ffff, toNat_lower, BitVec.toNat_setWidth]
  omega

theorem ushiftRight_eq_iff : word >>> 16 = word &&& 0xffff ↔ upper word = lower word := by
  have below := word.isLt
  rw [← BitVec.toNat_inj, ← BitVec.toNat_inj, toNat_and_ffff, toNat_lower, toNat_upper,
    BitVec.toNat_ushiftRight, Nat.shiftRight_eq_div_pow]

theorem eq_zero_of_add_eq {ticket : BitVec 16} {count : Nat} (below : count < 65536)
    (same : ticket = ticket + BitVec.ofNat 16 count) : count = 0 := by
  have bound := ticket.isLt
  have equal := congrArg BitVec.toNat same
  rw [BitVec.toNat_add, BitVec.toNat_ofNat] at equal
  omega

theorem add_ofNat_succ (ticket : BitVec 16) (count : Nat) :
    ticket + BitVec.ofNat 16 (count + 1) = ticket + BitVec.ofNat 16 count + 1 := by
  rw [BitVec.ofNat_add, BitVec.add_assoc]
  rfl

end Halves

structure Ticketed (lock : Lock) (holder : Option Nat) (waiting : List Nat) : Prop where
  nodup : waiting.Nodup
  held : ∀ index : Nat, lock.places[index]? = some .held ↔ holder = some index
  waits : ∀ (index : Nat) (ticket : BitVec 16), lock.places[index]? = some (.wait ticket) →
    ∃ position, waiting[position]? = some index ∧
      ticket = lower lock.word + BitVec.ofNat 16 (holder.toList.length + position)
  queued : ∀ index ∈ waiting, ∃ ticket, lock.places[index]? = some (.wait ticket)
  trying : ∀ (index : Nat) (value : Word), lock.places[index]? = some (.trying value) →
    upper value = lower value
  next : upper lock.word =
    lower lock.word + BitVec.ofNat 16 (holder.toList.length + waiting.length)
  outstanding : lock.places.countP SpinPlace.outstanding = holder.toList.length + waiting.length
  few : holder.toList.length + waiting.length < 65536
  fifo : lock.fetched = lock.obtained ++ waiting

section

variable {lock next : Lock} {holder : Option Nat} {waiting : List Nat} {index : Nat}

theorem getElem?_set_iff {places : List SpinPlace} {place old : SpinPlace}
    (found : places[index]? = some old) (other : Nat) (kind : SpinPlace) :
    (places.set index place)[other]? = some kind ↔
      if other = index then place = kind else places[other]? = some kind := by
  have inside := (List.getElem?_eq_some_iff.mp found).1
  by_cases same : other = index
  · subst same
    rw [if_pos rfl, List.getElem?_set_self inside, Option.some.injEq]
  · rw [if_neg same, List.getElem?_set_ne (Ne.symm same)]

namespace Ticketed

theorem arrive (ticketed : Ticketed lock holder waiting) :
    Ticketed { lock with places := lock.places ++ [.idle] } holder waiting := by
  have same : ∀ (other : Nat) (kind : SpinPlace), kind ≠ .idle →
      ((lock.places ++ [SpinPlace.idle])[other]? = some kind ↔ lock.places[other]? = some kind) := by
    intro other kind notIdle
    rcases Nat.lt_trichotomy other lock.places.length with inside | rfl | outside
    · rw [List.getElem?_append_left inside]
    · rw [List.getElem?_concat_length, List.getElem?_eq_none (Nat.le_refl _)]
      simp [Ne.symm notIdle]
    · rw [List.getElem?_eq_none (by simp; omega), List.getElem?_eq_none (by omega)]
  refine ⟨ticketed.nodup, ?_, ?_, ?_, ?_, ticketed.next, ?_, ticketed.few, ticketed.fifo⟩
  · intro other
    rw [same other .held (by simp)]
    exact ticketed.held other
  · intro other ticket waits
    exact ticketed.waits other ticket ((same other (.wait ticket) (by simp)).mp waits)
  · intro other member
    obtain ⟨ticket, waits⟩ := ticketed.queued other member
    exact ⟨ticket, (same other (.wait ticket) (by simp)).mpr waits⟩
  · intro other value trying
    exact ticketed.trying other value ((same other (.trying value) (by simp)).mp trying)
  · rw [List.countP_append, ticketed.outstanding]
    rfl

theorem apart (ticketed : Ticketed lock holder waiting) {place : SpinPlace}
    (found : lock.places[index]? = some place) (notOutstanding : place.outstanding = false) :
    holder ≠ some index ∧ index ∉ waiting := by
  constructor
  · intro isHolder
    have held := (ticketed.held index).mpr isHolder
    rw [found] at held
    obtain rfl := Option.some_inj.mp held
    cases notOutstanding
  · intro member
    obtain ⟨ticket, waits⟩ := ticketed.queued index member
    rw [found] at waits
    obtain rfl := Option.some_inj.mp waits
    cases notOutstanding

theorem countP_move {place : SpinPlace} (found : lock.places[index]? = some place)
    (after : SpinPlace) :
    (lock.places.set index after).countP SpinPlace.outstanding + place.outstanding.toNat =
      lock.places.countP SpinPlace.outstanding + after.outstanding.toNat :=
  countP_set found after

theorem stay (ticketed : Ticketed lock holder waiting) {place after : SpinPlace}
    (found : lock.places[index]? = some place) (notOutstanding : place.outstanding = false)
    (notAfter : after.outstanding = false)
    (trying : ∀ value, after = .trying value → upper value = lower value) :
    Ticketed (lock.move lock.word index after) holder waiting := by
  obtain ⟨notHolder, notWaiting⟩ := ticketed.apart found notOutstanding
  refine ⟨ticketed.nodup, ?_, ?_, ?_, ?_, ticketed.next, ?_, ticketed.few, ticketed.fifo⟩
  · intro other
    rw [Lock.move, getElem?_set_iff found]
    split
    · rename_i same
      subst same
      constructor
      · rintro rfl
        cases notAfter
      · exact fun isHolder => (notHolder isHolder).elim
    · exact ticketed.held other
  · intro other ticket
    rw [Lock.move, getElem?_set_iff found]
    split
    · rintro rfl
      cases notAfter
    · exact ticketed.waits other ticket
  · intro other member
    obtain ⟨ticket, waits⟩ := ticketed.queued other member
    refine ⟨ticket, (getElem?_set_iff found other _).mpr ?_⟩
    have different : other ≠ index := by
      rintro rfl
      exact notWaiting member
    rw [if_neg different]
    exact waits
  · intro other value
    rw [Lock.move, getElem?_set_iff found]
    split
    · exact trying value
    · exact ticketed.trying other value
  · have count := countP_move found after
    rw [notOutstanding, notAfter] at count
    rw [← ticketed.outstanding]
    exact Nat.add_right_cancel count

theorem spinLock (ticketed : Ticketed lock holder waiting)
    (found : lock.places[index]? = some .idle)
    (few : lock.places.countP SpinPlace.outstanding + 1 < 65536) :
    Ticketed (lock.spinLock index) holder (waiting ++ [index]) := by
  obtain ⟨notHolder, notWaiting⟩ := ticketed.apart found rfl
  have word : (lock.spinLock index).word = lock.word + (1 : Word) <<< 16 := rfl
  have length : (waiting ++ [index]).length = waiting.length + 1 := List.length_append
  refine ⟨?_, ?_, ?_, ?_, ?_, ?_, ?_, ?_, ?_⟩
  · exact List.nodup_append'.mpr ⟨ticketed.nodup, List.nodup_singleton index,
      List.disjoint_singleton.mpr notWaiting⟩
  · intro other
    rw [Lock.spinLock, Lock.move, getElem?_set_iff found]
    split
    · rename_i same
      subst same
      simpa using notHolder
    · exact ticketed.held other
  · intro other ticket
    rw [word, lower_add, Lock.spinLock, Lock.move, getElem?_set_iff found]
    split
    · rename_i same
      subst same
      rintro isWait
      obtain rfl := SpinPlace.wait.inj isWait
      exact ⟨waiting.length, List.getElem?_concat_length, ticketed.next⟩
    · intro waits
      obtain ⟨position, isThere, isTicket⟩ := ticketed.waits other ticket waits
      have inside := (List.getElem?_eq_some_iff.mp isThere).1
      exact ⟨position, (List.getElem?_append_left inside).trans isThere, isTicket⟩
  · intro other member
    rw [Lock.spinLock, Lock.move]
    by_cases same : other = index
    · exact ⟨upper lock.word, (getElem?_set_iff found other _).mpr (by rw [if_pos same])⟩
    · rcases List.mem_append.mp member with old | new
      · obtain ⟨ticket, waits⟩ := ticketed.queued other old
        exact ⟨ticket, (getElem?_set_iff found other _).mpr (by rw [if_neg same]; exact waits)⟩
      · exact (same (List.mem_singleton.mp new)).elim
  · intro other value
    rw [Lock.spinLock, Lock.move, getElem?_set_iff found]
    split
    · intro isTrying
      cases isTrying
    · exact ticketed.trying other value
  · rw [word, upper_add, lower_add, ticketed.next, length, ← Nat.add_assoc, add_ofNat_succ]
  · have count := countP_move found (.wait (upper lock.word))
    rw [ticketed.outstanding] at count
    rw [length]
    exact count
  · rw [ticketed.outstanding] at few
    rw [length, ← Nat.add_assoc]
    exact few
  · have fetched : (lock.spinLock index).fetched = lock.fetched ++ [index] := rfl
    rw [fetched, Lock.spinLock_obtained, ticketed.fifo, List.append_assoc]

theorem eq_nil_of_upper_eq_lower (ticketed : Ticketed lock holder waiting)
    (same : upper lock.word = lower lock.word) : holder = none ∧ waiting = [] := by
  have none := eq_zero_of_add_eq ticketed.few (same.symm.trans ticketed.next)
  constructor
  · cases holder with
    | none => rfl
    | some _ => simp at none
  · exact List.eq_nil_of_length_eq_zero (by omega)

theorem first_of_served (ticketed : Ticketed lock holder waiting) {ticket : BitVec 16}
    (found : lock.places[index]? = some (.wait ticket)) (served : lower lock.word = ticket) :
    holder = none ∧ ∃ rest, waiting = index :: rest := by
  obtain ⟨position, isThere, isTicket⟩ := ticketed.waits index ticket found
  have inside := (List.getElem?_eq_some_iff.mp isThere).1
  have few := ticketed.few
  have zero := eq_zero_of_add_eq (show holder.toList.length + position < 65536 by omega)
    (served.trans isTicket)
  constructor
  · cases holder with
    | none => rfl
    | some _ => simp at zero
  · obtain rfl : position = 0 := by omega
    cases waiting with
    | nil => cases isThere
    | cons first rest =>
        obtain rfl : first = index := Option.some_inj.mp isThere
        exact ⟨rest, rfl⟩

theorem take {rest : List Nat} (ticketed : Ticketed lock none (index :: rest))
    {ticket : BitVec 16} (found : lock.places[index]? = some (.wait ticket)) :
    Ticketed { lock.move lock.word index .held with obtained := lock.obtained ++ [index] }
      (some index) rest := by
  have fresh := (List.nodup_cons.mp ticketed.nodup).1
  refine ⟨(List.nodup_cons.mp ticketed.nodup).2, ?_, ?_, ?_, ?_, ?_, ?_, ?_, ?_⟩
  · intro other
    rw [Lock.move, getElem?_set_iff found]
    split
    · rename_i same
      simp [same]
    · rename_i different
      rw [ticketed.held]
      simp [Ne.symm different]
  · intro other otherTicket
    rw [Lock.move, getElem?_set_iff found]
    split
    · intro isWait
      cases isWait
    · rename_i different
      intro waits
      obtain ⟨position, isThere, isTicket⟩ := ticketed.waits other otherTicket waits
      cases position with
      | zero => exact (different (Option.some_inj.mp isThere).symm).elim
      | succ position =>
          refine ⟨position, isThere, isTicket.trans ?_⟩
          rw [Option.toList_none, List.length_nil, Option.toList_some, List.length_singleton,
            Nat.zero_add, Nat.add_comm]
  · intro other member
    obtain ⟨otherTicket, waits⟩ := ticketed.queued other (List.mem_cons_of_mem _ member)
    have different : other ≠ index := by
      rintro rfl
      exact fresh member
    refine ⟨otherTicket, (getElem?_set_iff found other _).mpr ?_⟩
    rw [if_neg different]
    exact waits
  · intro other value
    rw [Lock.move, getElem?_set_iff found]
    split
    · intro isTrying
      cases isTrying
    · exact ticketed.trying other value
  · have next := ticketed.next
    rw [Option.toList_none, List.length_nil, List.length_cons, Nat.zero_add, Nat.add_comm] at next
    exact next
  · have count := countP_move found .held
    rw [ticketed.outstanding] at count
    have same : (lock.places.set index .held).countP SpinPlace.outstanding =
        (none : Option Nat).toList.length + (index :: rest).length := Nat.add_right_cancel count
    rw [Option.toList_none, List.length_nil, List.length_cons, Nat.zero_add] at same
    rw [Option.toList_some, List.length_singleton, Nat.add_comm]
    exact same
  · have few := ticketed.few
    simp only [Option.toList_none, List.length_nil, List.length_cons, Nat.zero_add] at few
    rw [Option.toList_some, List.length_singleton, Nat.add_comm]
    exact few
  · rw [Lock.move_fetched, ticketed.fifo, List.append_assoc]
    rfl

theorem exchanged (ticketed : Ticketed lock none [])
    {value : Word} (found : lock.places[index]? = some (.trying value)) :
    Ticketed (lock.move (lock.word + (1 : Word) <<< 16) index .held) (some index) [] := by
  refine ⟨List.nodup_nil, ?_, ?_, ?_, ?_, ?_, ?_, ?_, ?_⟩
  · intro other
    rw [Lock.move, getElem?_set_iff found]
    split
    · rename_i same
      simp [same]
    · rename_i different
      rw [ticketed.held]
      simp [Ne.symm different]
  · intro other ticket
    rw [Lock.move, getElem?_set_iff found]
    split
    · intro isWait
      cases isWait
    · intro waits
      obtain ⟨position, isThere, _⟩ := ticketed.waits other ticket waits
      cases isThere
  · intro other member
    cases member
  · intro other otherValue
    rw [Lock.move, getElem?_set_iff found]
    split
    · intro isTrying
      cases isTrying
    · exact ticketed.trying other otherValue
  · have next := ticketed.next
    rw [Lock.move, upper_add, lower_add, next]
    simp
  · have count := countP_move found .held
    rw [ticketed.outstanding] at count
    exact count
  · simp
  · rw [Lock.move_fetched, Lock.move_obtained]
    exact ticketed.fifo

theorem spinUnlock (ticketed : Ticketed lock (some index) waiting) :
    Ticketed (lock.spinUnlock index) none waiting := by
  have found := (ticketed.held index).mpr rfl
  have isLower : lower (lock.spinUnlock index).word = lower lock.word + 1 := lower_append _ _
  have isUpper : upper (lock.spinUnlock index).word = upper lock.word := upper_append _ _
  refine ⟨ticketed.nodup, ?_, ?_, ?_, ?_, ?_, ?_, ?_, ticketed.fifo⟩
  · intro other
    rw [Lock.spinUnlock, Lock.move, getElem?_set_iff found]
    split
    · simp
    · rename_i different
      rw [ticketed.held]
      simp [Ne.symm different]
  · intro other ticket
    rw [isLower, Lock.spinUnlock, Lock.move, getElem?_set_iff found]
    split
    · intro isWait
      cases isWait
    · intro waits
      obtain ⟨position, isThere, isTicket⟩ := ticketed.waits other ticket waits
      refine ⟨position, isThere, ?_⟩
      rw [isTicket, Option.toList_some, List.length_singleton, Nat.add_comm 1, add_ofNat_succ,
        Option.toList_none, List.length_nil, Nat.zero_add, BitVec.add_assoc, BitVec.add_assoc,
        BitVec.add_comm 1]
  · intro other member
    obtain ⟨ticket, waits⟩ := ticketed.queued other member
    have different : other ≠ index := by
      rintro rfl
      rw [found] at waits
      cases waits
    refine ⟨ticket, (getElem?_set_iff found other _).mpr ?_⟩
    rw [if_neg different]
    exact waits
  · intro other value
    rw [Lock.spinUnlock, Lock.move, getElem?_set_iff found]
    split
    · intro isTrying
      cases isTrying
    · exact ticketed.trying other value
  · rw [isUpper, isLower, ticketed.next, Option.toList_some, List.length_singleton,
      Nat.add_comm 1, add_ofNat_succ, Option.toList_none, List.length_nil, Nat.zero_add,
      BitVec.add_assoc, BitVec.add_assoc, BitVec.add_comm 1]
  · have count := countP_move found .idle
    rw [ticketed.outstanding, Option.toList_some, List.length_singleton] at count
    rw [Option.toList_none, List.length_nil, Nat.zero_add]
    have less : (lock.places.set index .idle).countP SpinPlace.outstanding + 1 =
        1 + waiting.length := count
    simp only [Lock.spinUnlock, Lock.move]
    omega
  · have few := ticketed.few
    rw [Option.toList_some, List.length_singleton] at few
    rw [Option.toList_none, List.length_nil]
    omega

theorem look (ticketed : Ticketed lock holder waiting) {ticket : BitVec 16}
    (found : lock.places[index]? = some (.wait ticket)) :
    ∃ holder waiting, Ticketed (lock.look index ticket) holder waiting := by
  rw [Lock.look]
  split
  · exact ⟨holder, waiting, ticketed⟩
  · rename_i served
    obtain ⟨rfl, rest, rfl⟩ := ticketed.first_of_served found (and_ffff_eq_iff.mp (not_not.mp served))
    exact ⟨some index, rest, ticketed.take found⟩

theorem spinTryLock (ticketed : Ticketed lock holder waiting)
    (found : lock.places[index]? = some .idle) :
    Ticketed (lock.spinTryLock index) holder waiting := by
  rw [Lock.spinTryLock]
  split
  · exact ticketed
  · rename_i equal
    refine ticketed.stay found rfl rfl ?_
    intro value isTrying
    obtain rfl := SpinPlace.trying.inj isTrying
    exact ushiftRight_eq_iff.mp (not_not.mp equal)

end Ticketed

theorem exchange_eq (lock : Lock) (index : Nat) (value : Word) :
    lock.exchange index value =
      if lock.word = value then lock.move (value + (1 : Word) <<< 16) index .held
      else lock.move lock.word index .idle := by
  rw [Lock.exchange, atomicCompareExchange4, atomicCompareExchange_run]
  by_cases same : lock.word = value
  · simp only [if_pos same]
  · simp only [if_neg same]

theorem Ticketed.exchange (ticketed : Ticketed lock holder waiting) {value : Word}
    (found : lock.places[index]? = some (.trying value)) :
    ∃ holder waiting, Ticketed (lock.exchange index value) holder waiting := by
  rw [exchange_eq]
  split
  · rename_i same
    subst same
    obtain ⟨rfl, rfl⟩ := ticketed.eq_nil_of_upper_eq_lower (ticketed.trying index _ found)
    exact ⟨some index, [], ticketed.exchanged found⟩
  · exact ⟨holder, waiting, ticketed.stay found rfl rfl (by simp)⟩

theorem Ticketed.step (ticketed : Ticketed lock holder waiting) {action : LockAction}
    (few : lock.FewTickets action) (moved : lock.step action = some next) :
    ∃ holder waiting, Ticketed next holder waiting := by
  cases action with
  | arrive =>
      obtain rfl := Option.some_inj.mp moved
      exact ⟨holder, waiting, ticketed.arrive⟩
  | lock index =>
      simp only [Lock.step] at moved
      split at moved
      · rename_i found
        obtain rfl := Option.some_inj.mp moved
        exact ⟨holder, _, ticketed.spinLock found few⟩
      · cases moved
  | look index =>
      simp only [Lock.step] at moved
      split at moved
      · rename_i found
        obtain rfl := Option.some_inj.mp moved
        exact ticketed.look found
      · cases moved
  | tryLock index =>
      simp only [Lock.step] at moved
      split at moved
      · rename_i found
        obtain rfl := Option.some_inj.mp moved
        exact ⟨holder, waiting, ticketed.spinTryLock found⟩
      · cases moved
  | exchange index =>
      simp only [Lock.step] at moved
      split at moved
      · rename_i found
        obtain rfl := Option.some_inj.mp moved
        exact ticketed.exchange found
      · cases moved
  | unlock index =>
      simp only [Lock.step] at moved
      split at moved
      · rename_i found
        obtain rfl := Option.some_inj.mp moved
        obtain rfl := (ticketed.held index).mp found
        exact ⟨none, waiting, ticketed.spinUnlock⟩
      · cases moved

theorem ticketed_of_begins (begins : lock.Begins) : Ticketed lock none [] := by
  obtain ⟨equal, same⟩ := begins
  rw [same]
  refine ⟨List.nodup_nil, ?_, ?_, ?_, ?_, ?_, rfl, by simp, rfl⟩
  · simp
  · intro other ticket found
    simp at found
  · intro other member
    cases member
  · intro other value found
    simp at found
  · rw [equal]
    simp

theorem ticketed_of_guarded (reached : lockSystem.Guarded Lock.FewTickets lock) :
    ∃ holder waiting, Ticketed lock holder waiting := by
  refine reached.invariant (motive := fun lock => ∃ holder waiting, Ticketed lock holder waiting)
    (fun _ begins => ⟨none, [], ticketed_of_begins begins⟩) ?_
  rintro state action next ⟨holder, waiting, ticketed⟩ few moved
  exact ticketed.step few moved

/-- At most one contender holds the lock; those that call `spin_lock` obtain it in the order of their
tickets; and `spin_try_lock` succeeds only while nobody holds the lock or waits for it. -/
theorem spinlock_fair (reached : lockSystem.Guarded Lock.FewTickets lock) :
    (∀ first second : Nat, lock.places[first]? = some .held → lock.places[second]? = some .held →
      first = second) ∧
    lock.obtained <+: lock.fetched ∧
    ∀ (index : Nat) (next : Lock), lock.step (.exchange index) = some next →
      next.places[index]? = some .held → ∀ place ∈ lock.places, ¬ place.outstanding := by
  obtain ⟨holder, waiting, ticketed⟩ := ticketed_of_guarded reached
  refine ⟨?_, ⟨waiting, ticketed.fifo.symm⟩, ?_⟩
  · intro first second held heldToo
    have isFirst := (ticketed.held first).mp held
    have isSecond := (ticketed.held second).mp heldToo
    exact Option.some_inj.mp (isFirst.symm.trans isSecond)
  · intro index next moved held
    simp only [Lock.step] at moved
    split at moved
    · rename_i value found
      obtain rfl := Option.some_inj.mp moved
      rw [exchange_eq] at held
      split at held
      · rename_i same
        subst same
        obtain ⟨rfl, rfl⟩ := ticketed.eq_nil_of_upper_eq_lower (ticketed.trying index _ found)
        exact List.countP_eq_zero.mp ticketed.outstanding
      · rw [Lock.move, getElem?_set_iff found, if_pos rfl] at held
        cases held
    · cases moved

theorem spinlock_fair_run : ∃ lock : Lock,
    (∀ first second : Nat, lock.places[first]? = some .held → lock.places[second]? = some .held →
      first = second) ∧
    lock.word = 0x00010000 ∧ lock.obtained = [0, 1] := by
  obtain ⟨lock, reached, check⟩ := @System.exists_of_run _ _ lockSystem Lock.FewTickets
    (fun lock action =>
      match action with
      | .lock _ =>
          inferInstanceAs (Decidable (lock.places.countP SpinPlace.outstanding + 1 < 65536))
      | .arrive | .look _ | .tryLock _ | .exchange _ | .unlock _ => isTrue trivial)
    { word := 0xffffffff, places := [] } ⟨by decide, rfl⟩
    [.arrive, .arrive, .lock 0, .lock 1, .look 1, .look 0, .unlock 0, .look 1]
    (fun lock => lock.word = 0x00010000 ∧ lock.obtained = [0, 1])
    (fun _ => inferInstanceAs (Decidable (_ ∧ _))) (by decide)
  exact ⟨lock, (spinlock_fair reached).1, check⟩

end

end PicoToolkit.Spinlock
