import Mathlib.Tactic.Ring
import PicoToolkit.Scheduler.State

/-!
The system timer count: the position of the SysTick counter and the ticks of its handler, which are read one
after the other.
-/

namespace PicoToolkit

/-- The SysTick timer counts down from LOAD, a register of 24 bits, and every reload is owed a tick until the
handler has counted it. -/
structure SysTick where
  load : Nat
  val : Nat
  ticks : Word
  owed : Nat
  load_lt : load < 2 ^ 24
  val_le : val ≤ load

namespace SysTick

/-- What happens beside the thread: a clock of the timer, or the handler of its interrupt. -/
inductive Event where
  | clock
  | handler
  deriving DecidableEq

def clock (timer : SysTick) : SysTick :=
  if 0 < timer.val then
    { timer with
      val := timer.val - 1
      val_le := Nat.le_trans (Nat.sub_le _ _) timer.val_le }
  else { timer with val := timer.load, owed := timer.owed + 1, val_le := Nat.le_refl _ }

def tick (timer : SysTick) : Option SysTick :=
  if timer.owed = 0 then none
  else some { timer with ticks := timer.ticks + 1, owed := timer.owed - 1 }

def after : List Event → SysTick → Option SysTick
  | [], timer => some timer
  | .clock :: rest, timer => after rest timer.clock
  | .handler :: rest, timer => timer.tick.bind (after rest)

/-- `osKernelGetSysTimerCount`, with the events between the read of LOAD and the one of VAL, and between
the one of VAL and the one of the ticks: the value of VAL, the result, and the timer afterwards. -/
def osKernelGetSysTimerCount (beforeVal beforeTicks : List Event) (timer : SysTick) :
    Option (Nat × Word × SysTick) :=
  let load := BitVec.ofNat 32 timer.load
  (after beforeVal timer).bind fun atVal =>
    let sysTicks := load - BitVec.ofNat 32 atVal.val
    (after beforeTicks atVal).map fun atTicks =>
      (atVal.val, sysTicks + atTicks.ticks * (load + 1), atTicks)

def handled (events : List Event) : Nat := events.count .handler

def clocks (events : List Event) : Nat := events.count .clock

variable {timer next : SysTick} {events : List Event}

theorem clock_load (timer : SysTick) : timer.clock.load = timer.load := by
  unfold clock
  split
  · rfl
  · rfl

theorem clock_ticks (timer : SysTick) : timer.clock.ticks = timer.ticks := by
  unfold clock
  split
  · rfl
  · rfl

theorem after_counts (moved : after events timer = some next) :
    next.load = timer.load ∧ next.ticks = timer.ticks + BitVec.ofNat 32 (handled events) := by
  induction events generalizing timer with
  | nil =>
      obtain rfl := Option.some_inj.mp moved
      exact ⟨rfl, (BitVec.add_zero _).symm⟩
  | cons event rest ih =>
      cases event with
      | clock =>
          obtain ⟨load, ticks⟩ := ih moved
          rw [clock_load] at load
          rw [clock_ticks] at ticks
          exact ⟨load, by rwa [handled, List.count_cons_of_ne (by decide)]⟩
      | handler =>
          obtain ⟨ticked, counted, later⟩ := Option.bind_eq_some_iff.mp moved
          rw [tick] at counted
          split at counted
          · cases counted
          · obtain rfl := Option.some_inj.mp counted
            obtain ⟨load, ticks⟩ := ih later
            refine ⟨load, ?_⟩
            rw [ticks, handled, handled, List.count_cons_self, BitVec.ofNat_add, BitVec.add_assoc,
              BitVec.add_comm (1 : Word)]
            rfl

theorem osKernelGetSysTimerCount_result {beforeVal beforeTicks : List Event} {val : Nat} {result : Word}
    (returned : osKernelGetSysTimerCount beforeVal beforeTicks timer = some (val, result, next)) :
    val ≤ timer.load ∧ next.load = timer.load ∧
      next.ticks = timer.ticks + BitVec.ofNat 32 (handled beforeVal + handled beforeTicks) ∧
      result = BitVec.ofNat 32 timer.load - BitVec.ofNat 32 val +
        next.ticks * (BitVec.ofNat 32 timer.load + 1) := by
  obtain ⟨atVal, first, rest⟩ := Option.bind_eq_some_iff.mp returned
  obtain ⟨atTicks, second, same⟩ := Option.map_eq_some_iff.mp rest
  cases same
  obtain ⟨load, ticks⟩ := after_counts first
  obtain ⟨laterLoad, laterTicks⟩ := after_counts second
  refine ⟨load ▸ atVal.val_le, laterLoad.trans load, ?_, rfl⟩
  rw [laterTicks, ticks, BitVec.add_assoc, ← BitVec.ofNat_add]

def NotBehind (first second : Word) : Prop := (second - first).toNat < 2 ^ 31

instance (first second : Word) : Decidable (NotBehind first second) :=
  inferInstanceAs (Decidable (_ < _))

/-- Two calls one after the other.  Without a run of the handler between their reads of the ticks, VAL has
not been reloaded past its first value; otherwise the periods that the handler counts make up less than half
of the range. -/
def Ordered (load firstVal secondVal counted : Nat) : Prop :=
  if counted = 0 then secondVal ≤ firstVal
  else (counted * (load + 1) + firstVal - secondVal) % 2 ^ 32 < 2 ^ 31

instance (load firstVal secondVal counted : Nat) : Decidable (Ordered load firstVal secondVal counted) :=
  inferInstanceAs (Decidable (if counted = 0 then secondVal ≤ firstVal
    else (counted * (load + 1) + firstVal - secondVal) % 2 ^ 32 < 2 ^ 31))

/-- The difference of two results is the one of the positions and the periods counted in between. -/
theorem notBehind_iff_ordered {load firstVal secondVal counted : Nat} {ticks : Word}
    (small : load < 2 ^ 24) (firstInside : firstVal ≤ load) (secondInside : secondVal ≤ load) :
    NotBehind
      (BitVec.ofNat 32 load - BitVec.ofNat 32 firstVal + ticks * (BitVec.ofNat 32 load + 1))
      (BitVec.ofNat 32 load - BitVec.ofNat 32 secondVal +
        (ticks + BitVec.ofNat 32 counted) * (BitVec.ofNat 32 load + 1)) ↔
      Ordered load firstVal secondVal counted := by
  have difference : BitVec.ofNat 32 load - BitVec.ofNat 32 secondVal +
        (ticks + BitVec.ofNat 32 counted) * (BitVec.ofNat 32 load + 1) -
      (BitVec.ofNat 32 load - BitVec.ofNat 32 firstVal + ticks * (BitVec.ofNat 32 load + 1)) =
      BitVec.ofNat 32 (counted * (load + 1) + firstVal) - BitVec.ofNat 32 secondVal := by
    have one : BitVec.ofNat 32 1 = (1 : Word) := rfl
    rw [BitVec.ofNat_add, BitVec.ofNat_mul, BitVec.ofNat_add, one]
    ring
  rw [NotBehind, difference, Ordered]
  split
  · rename_i none
    rw [none, Nat.zero_mul, Nat.zero_add, BitVec.toNat_sub, BitVec.toNat_ofNat, BitVec.toNat_ofNat]
    omega
  · rename_i some
    have period : load + 1 ≤ counted * (load + 1) :=
      Nat.le_mul_of_pos_left _ (Nat.pos_of_ne_zero some)
    have word : BitVec.ofNat 32 (counted * (load + 1) + firstVal) - BitVec.ofNat 32 secondVal =
        BitVec.ofNat 32 (counted * (load + 1) + firstVal - secondVal) := by
      have whole : counted * (load + 1) + firstVal =
          counted * (load + 1) + firstVal - secondVal + secondVal := by omega
      rw [whole, BitVec.ofNat_add, Nat.add_sub_cancel, BitVec.add_sub_cancel]
    rw [word, BitVec.toNat_ofNat]

section Calls

variable {timer first second third : SysTick}
  {beforeVal beforeTicks between beforeSecondVal beforeSecondTicks : List Event}
  {firstVal secondVal : Nat} {firstResult secondResult : Word}

theorem osKernelGetSysTimerCount_results
    (firstCall : osKernelGetSysTimerCount beforeVal beforeTicks timer = some (firstVal, firstResult, first))
    (later : after between first = some second)
    (secondCall : osKernelGetSysTimerCount beforeSecondVal beforeSecondTicks second =
      some (secondVal, secondResult, third)) :
    firstVal ≤ timer.load ∧ secondVal ≤ timer.load ∧
      firstResult = BitVec.ofNat 32 timer.load - BitVec.ofNat 32 firstVal +
        first.ticks * (BitVec.ofNat 32 timer.load + 1) ∧
      secondResult = BitVec.ofNat 32 timer.load - BitVec.ofNat 32 secondVal +
        (first.ticks + BitVec.ofNat 32
          (handled between + (handled beforeSecondVal + handled beforeSecondTicks))) *
          (BitVec.ofNat 32 timer.load + 1) := by
  obtain ⟨firstInside, firstLoad, _, firstIs⟩ := osKernelGetSysTimerCount_result firstCall
  obtain ⟨load, ticks⟩ := after_counts later
  obtain ⟨secondInside, _, secondTicks, secondIs⟩ := osKernelGetSysTimerCount_result secondCall
  rw [load, firstLoad] at secondInside secondIs
  rw [secondTicks, ticks, BitVec.add_assoc, ← BitVec.ofNat_add] at secondIs
  exact ⟨firstInside, secondInside, firstIs, secondIs⟩

/-- Of two calls, with any events inside of them and in between, the second is not behind the first just when
they are ordered so. -/
theorem osKernelGetSysTimerCount_iff
    (firstCall : osKernelGetSysTimerCount beforeVal beforeTicks timer = some (firstVal, firstResult, first))
    (later : after between first = some second)
    (secondCall : osKernelGetSysTimerCount beforeSecondVal beforeSecondTicks second =
      some (secondVal, secondResult, third)) :
    NotBehind firstResult secondResult ↔
      Ordered timer.load firstVal secondVal
        (handled between + (handled beforeSecondVal + handled beforeSecondTicks)) := by
  obtain ⟨firstInside, secondInside, rfl, rfl⟩ :=
    osKernelGetSysTimerCount_results firstCall later secondCall
  exact notBehind_iff_ordered timer.load_lt firstInside secondInside

end Calls

def atReload : SysTick where
  load := 124999
  val := 0
  ticks := 0
  owed := 0
  load_lt := by decide
  val_le := by decide

theorem osKernelGetSysTimerCount_iff_late : NotBehind 0 125001 := by
  have calls := @osKernelGetSysTimerCount_iff atReload.clock _ _ _ [] [] [.clock] [] [.handler]
    124999 124998 0 125001 rfl rfl rfl
  exact calls.mpr (by decide)

/-- The timer is reloaded and the tick counted between the two reads of the first call; the second call
follows at once. -/
theorem osKernelGetSysTimerCount_behind :
    ∃ first next second last,
      osKernelGetSysTimerCount [] [.clock, .handler] atReload = some (0, first, next) ∧
        osKernelGetSysTimerCount [] [] next = some (124999, second, last) ∧
          first.toNat = 249999 ∧ second.toNat = 125000 ∧ ¬NotBehind first second := by
  refine ⟨_, _, _, _, rfl, rfl, ?_, ?_, ?_⟩
  · decide
  · decide
  · decide

section Elapsed

theorem after_position (moved : after events timer = some next) :
    next.val + clocks events + timer.owed * (timer.load + 1) =
      timer.val + (next.owed + handled events) * (timer.load + 1) := by
  induction events generalizing timer with
  | nil =>
      obtain rfl := Option.some_inj.mp moved
      rfl
  | cons event rest ih =>
      cases event with
      | clock =>
          have later := ih moved
          have stays : handled (.clock :: rest) = handled rest := List.count_cons_of_ne (by decide)
          have counts : clocks (.clock :: rest) = clocks rest + 1 := List.count_cons_self
          rw [clock_load] at later
          rw [stays, counts]
          by_cases positive : 0 < timer.val
          · simp only [clock, if_pos positive] at later
            omega
          · simp only [clock, if_neg positive, Nat.add_mul] at later ⊢
            omega
      | handler =>
          obtain ⟨ticked, counted, moved⟩ := Option.bind_eq_some_iff.mp moved
          have stays : clocks (.handler :: rest) = clocks rest := List.count_cons_of_ne (by decide)
          have counts : handled (.handler :: rest) = handled rest + 1 := List.count_cons_self
          rw [tick] at counted
          split at counted
          · cases counted
          · rename_i positive
            obtain rfl := Option.some_inj.mp counted
            have later := ih moved
            have owes : timer.owed * (timer.load + 1) =
                (timer.owed - 1) * (timer.load + 1) + (timer.load + 1) := by
              rw [← Nat.succ_mul]
              congr 1
              omega
            rw [stays, counts]
            simp only [Nat.add_mul, owes] at later ⊢
            omega

/-- While less than half of the range elapses, with the periods that are owed at the start, a second call
is behind the first only if no tick is counted between their reads of the ticks. -/
theorem notBehind_of_handled {timer first second third : SysTick}
    {beforeVal beforeTicks between beforeSecondVal beforeSecondTicks : List Event}
    {firstVal secondVal : Nat} {firstResult secondResult : Word}
    (firstCall : osKernelGetSysTimerCount beforeVal beforeTicks timer = some (firstVal, firstResult, first))
    (later : after between first = some second)
    (secondCall : osKernelGetSysTimerCount beforeSecondVal beforeSecondTicks second =
      some (secondVal, secondResult, third))
    (elapsed : clocks between + clocks beforeSecondVal + clocks beforeSecondTicks +
      (first.owed + 2) * (timer.load + 1) ≤ 2 ^ 31)
    (counted : handled between + (handled beforeSecondVal + handled beforeSecondTicks) ≠ 0) :
    NotBehind firstResult secondResult := by
  obtain ⟨firstInside, secondInside, firstIs, secondIs⟩ :=
    osKernelGetSysTimerCount_results firstCall later secondCall
  obtain ⟨_, firstLoad, _⟩ := osKernelGetSysTimerCount_result firstCall
  rw [firstIs, secondIs, notBehind_iff_ordered timer.load_lt firstInside secondInside, Ordered,
    if_neg counted]
  refine lt_of_le_of_lt (Nat.mod_le _ _) ?_
  clear firstIs secondIs
  obtain ⟨atVal, toVal, rest⟩ := Option.bind_eq_some_iff.mp secondCall
  obtain ⟨atTicks, toTicks, same⟩ := Option.map_eq_some_iff.mp rest
  cases same
  have load := (after_counts later).1
  have valLoad := (after_counts toVal).1
  have one := after_position later
  have two := after_position toVal
  have three := after_position toTicks
  have inside := first.val_le
  have lastInside := third.val_le
  have lastLoad := (after_counts toTicks).1
  rw [lastLoad, valLoad, load, firstLoad] at lastInside
  rw [firstLoad] at one inside
  rw [load, firstLoad] at two
  rw [valLoad, load, firstLoad] at three
  simp only [Nat.add_mul] at one two three elapsed ⊢
  omega

end Elapsed

end SysTick

end PicoToolkit
