import PicoToolkit.Cmsis.Kernel
import PicoToolkit.Timer.Expiry

/-!
`osDelayUntil`, and when timed calls end on time.
-/

namespace PicoToolkit

open Ring Transition

section

variable {R : Type → Type → Type} [Store R] {cores : Nat} [NeZero cores]

/-- `osDelayUntil` up to its service call: the status it returns with at once, or what the call of
`scheduler_sleep` leaves.  `now` is what it has read from the tick counter. -/
def osDelayUntil (core : Fin cores) (kernelState : OsKernelState) (ticks now : Word)
    (state : State R cores) : Option (Except OsStatus (State R cores)) :=
  if ticks = 0 then some (.error .osErrorParameter)
  else if kernelState ≠ .osKernelRunning then some (.error .osError)
  else
    let msecs := ticks - now
    (schedulerSleep core msecs state).map .ok

end

def delayMax : Nat := (2 ^ 32 - 1) / 2

def InPast (target now : Word) : Prop := delayMax < (target - now).toNat

instance (target now : Word) : Decidable (InPast target now) :=
  inferInstanceAs (Decidable (delayMax < (target - now).toNat))

variable {cores : Nat} [NeZero cores]

theorem suspended_of_schedulerSleep {state next : State Links cores} {core : Fin cores}
    {ticks task : Word} (reached : (scheduler cores).Reachable state)
    (runs : state.currentTask core = some task) (positive : ticks ≠ 0)
    (slept : schedulerSleep core ticks state = some next) : (next.task task).state = .suspended := by
  have alive : schedulerTaskAlive task state := by
    obtain ⟨_, abstractly⟩ := (scheduler_simulation cores).reachable reached
    have placed := placed_of_reachable abstractly
    have running : (state.task task).state = .running := (placed task).running.mpr ⟨core, runs⟩
    refine decide_eq_true ((placed task).listed.mpr ?_)
    simp [State.whereabouts, State.plain, running]
  have isCurrent : taskOrCurrent core 0 state = task := by simp [taskOrCurrent, schedGetCurrent, runs]
  have current : schedGetCurrent core state = some task := runs
  rw [schedulerSleep, if_neg positive, isCurrent, schedulerSuspendSvc, current] at slept
  simp only [alive, if_true, Option.some_inj] at slept
  subst slept
  simp only [schedulerSuspendTask, ne_eq, not_true_eq_false, if_false, schedulerTimerStart]
  split
  · simp [schedulerRequestSwitch, schedSetCurrent, State.setCore, schedulerTimerPush, setTaskStateOff,
      State.setTask, State.linkTimer, State.unlinkTimer]
  · simp [schedulerRequestSwitch, schedSetCurrent, State.setCore, setTaskStateOff, State.setTask]

theorem suspended_of_osDelayUntil {state next : State Links cores} {core : Fin cores}
    {kernelState : OsKernelState} {target now task : Word}
    (reached : (scheduler cores).Reachable state) (runs : state.currentTask core = some task)
    (past : InPast target now)
    (called : osDelayUntil core kernelState target now state = some (.ok next)) :
    (next.task task).state = .suspended := by
  have positive : target - now ≠ 0 := by
    intro none
    rw [InPast, none] at past
    cases past
  simp only [osDelayUntil] at called
  split at called
  · cases called
  · split at called
    · cases called
    · obtain ⟨after, slept, same⟩ := Option.map_eq_some_iff.mp called
      obtain rfl : after = next := Except.ok.inj same
      exact suspended_of_schedulerSleep reached runs positive slept

/-- A timer is taken off the list as expired in time exactly if the counter did not wrap around
within the delay, or has done so; a call of `osDelayUntil` respects the past exactly if its target
does not lie there. -/
theorem timely_iff {recorded : State Links cores × (Word → TimedCall)}
    (reached : (timedCalls cores).Reachable recorded) :
    (∀ task, expiredTask recorded.1 = some task →
      ((recorded.2 task).Due (schedulerGetTicks recorded.1) ↔
        (recorded.2 task).Sound (schedulerGetTicks recorded.1))) ∧
    ∀ core task kernelState target now next, recorded.1.currentTask core = some task →
      osDelayUntil core kernelState target now recorded.1 = some (.ok next) →
      ((InPast target now → (next.task task).state ≠ .suspended) ↔ ¬InPast target now) := by
  obtain ⟨plainly, expires⟩ := expires_of_timedCalls reached
  constructor
  · intro task isExpired
    obtain ⟨first, reached⟩ := Option.filter_eq_some_iff.mp isExpired
    apply TimedCall.due_iff_sound
    rw [← expires task (List.mem_of_mem_head? first)]
    exact of_decide_eq_true reached
  · intro core task kernelState target now next runs called
    constructor
    · exact fun awake past => awake past (suspended_of_osDelayUntil plainly runs past called)
    · exact fun future past => (future past).elim

theorem timedCalls_boot : (timedCalls 1).initial (bootState 1, fun _ => {}) :=
  ⟨initial_bootState 1, rfl⟩

theorem timely_iff_oneTick :
    ∃ recorded, (timedCalls 1).Reachable recorded ∧ expiredTask recorded.1 = some 0x2000 ∧
      (recorded.2 0x2000).Due (schedulerGetTicks recorded.1) := by
  obtain ⟨recorded, reached, isExpired, sound⟩ := System.exists_of_run (fun _ _ => True)
    timedCalls_boot (List.flatten [oneRunner, [.sleep 0 1], switchPass,
                      [.tick 0, .switchEnter 0, .switchStep 0]])
    (fun recorded : State Links 1 × (Word → TimedCall) => expiredTask recorded.1 = some 0x2000 ∧
      (recorded.2 0x2000).since.toNat + (recorded.2 0x2000).delay.toNat < 2 ^ 32)
    (by decide)
  exact ⟨recorded, reached, isExpired, ((timely_iff reached).1 _ isExpired).mpr (Or.inl sound)⟩

def State.atTick (state : State Links 1) (ticks : Word) : State Links 1 :=
  state.setCore 0 fun coreLocal => { coreLocal with ticks := ticks }

theorem schedulerTick_atTick {state : State Links 1} {ticks : Word}
    (running : schedulerIsRunning state) (noTimer : state.timerExpires = BitVec.ofNat 32 uint32Max)
    (noSlice : (state.coreLocal 0).sliceExpires = int32Max)
    (early : ticks.toNat + 1 < uint32Max) :
    schedulerTick 0 (state.atTick ticks) = state.atTick (ticks + 1) := by
  have stillRunning : schedulerIsRunning (state.atTick ticks) := running
  have counted : (state.atTick ticks).setCore 0
      (fun coreLocal => { coreLocal with ticks := coreLocal.ticks + 1 }) =
        state.atTick (ticks + 1) := by
    simp [State.atTick, State.setCore]
  have unexpired : ¬(state.atTick (ticks + 1)).timerExpires ≤
      schedulerGetTicks (state.atTick (ticks + 1)) := by
    have now : schedulerGetTicks (state.atTick (ticks + 1)) = ticks + 1 := by
      simp [schedulerGetTicks, State.atTick, State.setCore]
    have expiry : (state.atTick (ticks + 1)).timerExpires = BitVec.ofNat 32 uint32Max := noTimer
    rw [now, expiry, BitVec.le_def, BitVec.toNat_add, BitVec.toNat_ofNat]
    simp only [uint32Max] at early ⊢
    have one : (1 : Word).toNat = 1 := rfl
    rw [one]
    omega
  have unsliced : ((state.atTick (ticks + 1)).coreLocal 0).sliceExpires = int32Max := by
    simpa [State.atTick, State.setCore] using noSlice
  simp only [schedulerTick, stillRunning, if_true, counted, schedulerTickTimers, if_neg unexpired,
    schedulerTickSlice, unsliced, ne_eq, not_true_eq_false, if_false]

theorem reachable_atTick {state : State Links 1} {calls : Word → TimedCall}
    (reached : (timedCalls 1).Reachable (state.atTick 0, calls)) (running : schedulerIsRunning state)
    (noTimer : state.timerExpires = BitVec.ofNat 32 uint32Max)
    (noSlice : (state.coreLocal 0).sliceExpires = int32Max) {ticks : Nat}
    (early : ticks < uint32Max) :
    (timedCalls 1).Reachable (state.atTick (BitVec.ofNat 32 ticks), calls) := by
  induction ticks with
  | zero => exact reached
  | succ ticks ih =>
      have small : (BitVec.ofNat 32 ticks).toNat = ticks := by
        rw [BitVec.toNat_ofNat]
        simp only [uint32Max] at early
        omega
      have ticked := @schedulerTick_atTick state (BitVec.ofNat 32 ticks) running noTimer noSlice
        (by omega)
      have stepped : (timedCalls 1).step (state.atTick (BitVec.ofNat 32 ticks), calls) (.tick 0) =
          some (state.atTick (BitVec.ofNat 32 ticks + 1), calls) := by
        have moved : (scheduler 1).step (state.atTick (BitVec.ofNat 32 ticks)) (.tick 0) =
            some (state.atTick (BitVec.ofNat 32 ticks + 1)) := congrArg some ticked
        simp only [timedCalls, System.record, moved]
        rfl
      rw [BitVec.ofNat_add]
      exact (ih (by omega)).step stepped

/-- Near the end of the counter's range a timer is taken off the list at once, and a call with a
target in the past sleeps. -/
theorem early_and_past :
    (∃ recorded task, (timedCalls 1).Reachable recorded ∧ expiredTask recorded.1 = some task ∧
        ¬(recorded.2 task).Due (schedulerGetTicks recorded.1)) ∧
      ∃ state next, (scheduler 1).Reachable state ∧ state.currentTask 0 = some 0x2000 ∧
        InPast 0xfffffff0 0 ∧
        osDelayUntil 0 .osKernelRunning 0xfffffff0 0 state = some (.ok next) ∧
        (next.task 0x2000).state = .suspended := by
  constructor
  · obtain ⟨recorded, reached, running, noTimer, noSlice, fresh, found⟩ := System.exists_of_run
      (fun _ _ => True) timedCalls_boot oneRunner
      (fun recorded : State Links 1 × (Word → TimedCall) => schedulerIsRunning recorded.1 ∧
        recorded.1.timerExpires = BitVec.ofNat 32 uint32Max ∧
        (recorded.1.coreLocal 0).sliceExpires = int32Max ∧
        (recorded.1.coreLocal 0).ticks = 0 ∧
        ((timedCalls 1).run (fun _ _ => True) (recorded.1.atTick 0xfffffff0, recorded.2)
          [.sleep 0 0x100, .switchEnter 0, .switchStep 0]).any fun final =>
            decide (expiredTask final.1 = some 0x2000 ∧
              ¬(final.2 0x2000).delay ≤ schedulerGetTicks final.1 - (final.2 0x2000).since))
      (by decide)
    obtain ⟨state, calls⟩ := recorded
    have same : state.atTick 0 = state := by
      simp only [State.atTick, State.setCore]
      have unchanged : ({ state.coreLocal 0 with ticks := 0 } : CoreLocal) = state.coreLocal 0 := by
        rw [← fresh]
      rw [unchanged, Function.update_eq_self]
    have atZero : (timedCalls 1).Reachable (state.atTick 0, calls) := by
      rw [same]
      exact reached
    have early := @reachable_atTick state calls atZero running noTimer noSlice 0xfffffff0
      (by decide)
    obtain ⟨final, performed, checked⟩ := (Option.any_eq_true _ _).mp found
    obtain ⟨isExpired, notDue⟩ := of_decide_eq_true checked
    exact ⟨final, 0x2000, System.run_guarded early performed, isExpired, notDue⟩
  · obtain ⟨state, reached, runs, found⟩ := System.exists_of_run (fun _ _ => True)
      (initial_bootState 1) oneRunner
      (fun state => state.currentTask 0 = some 0x2000 ∧
        (schedulerSleep 0 (0xfffffff0 - 0) state).isSome) (by decide)
    obtain ⟨next, slept⟩ := Option.isSome_iff_exists.mp found
    have called : osDelayUntil 0 .osKernelRunning 0xfffffff0 0 state = some (.ok next) := by
      rw [osDelayUntil, if_neg (by decide), if_neg (by decide)]
      exact congrArg (Option.map Except.ok) slept
    exact ⟨state, next, reached, runs, by decide, called,
      suspended_of_osDelayUntil reached runs (by decide) called⟩

end PicoToolkit
