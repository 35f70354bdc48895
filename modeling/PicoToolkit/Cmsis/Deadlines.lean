import PicoToolkit.Cmsis.EventFlags
import PicoToolkit.Cmsis.Mutex
import PicoToolkit.Cmsis.Semaphore
import PicoToolkit.Threads.Blocking

/-!
How long the calls that take a timeout wait: each of their waits is given the whole timeout.
-/

namespace PicoToolkit

open Ring Transition Interleaving

/-- A call on any semaphore, mutex, event flags or `mtx_t`; a lock is taken for the task that calls. -/
inductive BlockingCall where
  | semaphore (semaphore : RtosSemaphore) (call : SemaphoreCall)
  | osMutexAcquire (mutex : RtosMutex) (self timeout : Word)
  | eventFlags (eventflags : RtosEventflags) (call : EventFlagsCall)
  | mtxLock (mtx : Mtx) (self msec : Word)

inductive BlockingPlace where
  | semaphore (semaphore : RtosSemaphore) (place : SemaphorePlace)
  | osMutexAcquire (mutex : RtosMutex) (self timeout : Word) (place : LockPlace ⊕ OsStatus)
  | eventFlags (eventflags : RtosEventflags) (place : EventFlagsPlace)
  | mtxLock (mtx : Mtx) (self msec : Word) (place : LockPlace ⊕ ThrdReturn)

def blockingProgram : ThreadProgram Unit BlockingPlace BlockingCall where
  enter
    | (context, .semaphore semaphore call) =>
        .semaphore semaphore ((semaphoreProgram semaphore).enter (context, call))
    | (context, .osMutexAcquire mutex self timeout) =>
        .osMutexAcquire mutex self timeout (osMutexAcquireStart mutex context)
    | (context, .eventFlags eventflags call) =>
        .eventFlags eventflags ((eventFlagsProgram eventflags).enter (context, call))
    | (_, .mtxLock mtx self msec) => .mtxLock mtx self msec (.inl .owned)
  op
    | .semaphore semaphore place =>
        ((semaphoreProgram semaphore).op place).map fun op => op.map (.semaphore semaphore)
    | .osMutexAcquire mutex self timeout (.inl place) =>
        some ((osMutexAcquire mutex self timeout place).map (.osMutexAcquire mutex self timeout))
    | .eventFlags eventflags place =>
        ((eventFlagsProgram eventflags).op place).map fun op => op.map (.eventFlags eventflags)
    | .mtxLock mtx self msec (.inl place) =>
        some ((mtxLockFor mtx self msec place).map (.mtxLock mtx self msec))
    | _ => none

def BlockingCall.self : BlockingCall → Option Word
  | .osMutexAcquire _ self _ | .mtxLock _ self _ => some self
  | _ => none

def BlockingCall.timeout : BlockingCall → Option Word
  | .semaphore _ (.osSemaphoreAcquire timeout) => some timeout
  | .osMutexAcquire _ _ timeout => some timeout
  | .eventFlags _ (.osEventFlagsWait _ timeout) => some timeout
  | .mtxLock _ _ msec => some msec
  | _ => none

def BlockingPlace.timeout : BlockingPlace → Option Word
  | .semaphore _ (.acquire timeout _) => some timeout
  | .osMutexAcquire _ _ timeout _ => some timeout
  | .eventFlags _ (.wait _ timeout _) => some timeout
  | .mtxLock _ _ msec _ => some msec
  | _ => none

structure MadeCall where
  tick : Nat
  timeout : Option Word
  deriving DecidableEq

structure IssuedWait where
  call : MadeCall
  tick : Nat
  ticks : Word
  deriving DecidableEq

structure CallLog where
  now : Nat := 0
  calls : List MadeCall := []
  waits : List IssuedWait := []

/-- The timeout is positive, and not `osWaitForever`. -/
def MadeCall.timed (call : MadeCall) : Bool :=
  call.timeout.any fun timeout => decide (timeout ≠ 0 ∧ timeout ≠ osWaitForever)

def IssuedWait.InBudget (wait : IssuedWait) : Prop :=
  wait.call.timed →
    wait.tick + wait.ticks.toNat ≤ wait.call.tick + (wait.call.timeout.getD 0).toNat

instance (wait : IssuedWait) : Decidable wait.InBudget :=
  inferInstanceAs (Decidable (wait.call.timed = true → _ ≤ _))

def waitTicks {Data Place : Type} : ThreadOp Data Place → Option Word
  | .service (.wait _ _ ticks) _ => some ticks
  | _ => none

section

variable {cores : Nat} [NeZero cores]

def Machine.issues (machine : Machine cores Unit BlockingPlace) :
    Label cores BlockingCall → Option Word
  | .act _ index => machine.calls[index]?.bind fun call =>
      if call.waiting then none else (blockingProgram.op call.place).bind waitTicks
  | _ => none

def CallLog.issued (log : CallLog) (machine : Machine cores Unit BlockingPlace) :
    Label cores BlockingCall → Option IssuedWait
  | .act core index => (machine.issues (.act core index)).bind fun ticks =>
      log.calls[index]?.map fun call => ⟨call, log.now, ticks⟩
  | _ => none

/-- What a step adds to the log; the tick counter may wrap around, the ticks that have passed do not. -/
def CallLog.after (log : CallLog) (machine next : Machine cores Unit BlockingPlace) :
    Label cores BlockingCall → CallLog
  | .kernel _ =>
      { log with
        now := log.now + (schedulerGetTicks next.kernel - schedulerGetTicks machine.kernel).toNat }
  | .call _ call | .interrupt _ call => { log with calls := log.calls ++ [⟨log.now, call.timeout⟩] }
  | .act core index =>
      { log with waits := log.waits ++ (log.issued machine (.act core index)).toList }

def Machine.ownCall (machine : Machine cores Unit BlockingPlace) : Label cores BlockingCall → Bool
  | .call core call =>
      call.self.all fun self => decide (machine.kernel.currentTask core = some self)
  | _ => true

def blockingSystem (cores : Nat) [NeZero cores] :
    System (Machine cores Unit BlockingPlace × CallLog) (Label cores BlockingCall) where
  initial recorded :=
    (machineSystem blockingProgram (fun _ => false) (fun _ => 0) ()).initial recorded.1 ∧
      recorded.2 = {}
  step recorded label :=
    if recorded.1.ownCall label then
      (Machine.step blockingProgram (fun _ => false) recorded.1 label).map fun next =>
        (next, recorded.2.after recorded.1 next label)
    else none

def WaitsAtOnce (recorded : Machine cores Unit BlockingPlace × CallLog)
    (label : Label cores BlockingCall) : Prop :=
  ∀ wait ∈ recorded.2.issued recorded.1 label, wait.call.timed → wait.tick = wait.call.tick

instance (recorded : Machine cores Unit BlockingPlace × CallLog) (label : Label cores BlockingCall) :
    Decidable (WaitsAtOnce recorded label) := by
  unfold WaitsAtOnce
  exact Option.decidableForallMem (recorded.2.issued recorded.1 label)

end

section Programs

variable {Address Value Request Answer Data Place Other : Type}

def Leading (goal : Place → Prop) : Op Address Value Request Answer Data Place → Prop
  | .word _ act => ∀ value, goal (act value).2
  | .data act => ∀ data, goal (act data).2
  | .service _ resume => ∀ answer, goal (resume answer)

theorem leading_map {goal : Other → Prop} {outer : Place → Other} (holds : ∀ place, goal (outer place))
    (op : Op Address Value Request Answer Data Place) : Leading goal (op.map outer) := by
  cases op with
  | word address act => exact fun _ => holds _
  | data act => exact fun _ => holds _
  | service request resume => exact fun _ => holds _

theorem waitTicks_map {Data Place Other : Type} (op : ThreadOp Data Place) (outer : Place → Other) :
    waitTicks (op.map outer) = waitTicks op := by
  cases op with
  | word address act => rfl
  | data act => rfl
  | service request resume =>
      cases request with
      | _ => rfl

theorem timeout_enter (context : Context) (call : BlockingCall) :
    (blockingProgram.enter (context, call)).timeout = call.timeout := by
  cases call with
  | semaphore semaphore call =>
      cases call with
      | _ => rfl
  | osMutexAcquire mutex self timeout => rfl
  | eventFlags eventflags call =>
      cases call with
      | _ => rfl
  | mtxLock mtx self msec => rfl

theorem waitTicks_lockLoop {Data : Type} {lock : LockWords} {tries : Bool} {self timeout ticks : Word}
    {place : LockPlace}
    (waits : waitTicks (lockLoop lock tries self timeout place : ThreadOp Data _) = some ticks) :
    ticks = timeout := by
  cases place with
  | wait expected => exact (Option.some_inj.mp waits).symm
  | _ => cases waits

end Programs

variable {place : BlockingPlace} {op : ThreadOp Unit BlockingPlace}

theorem leading_timeout (isNext : blockingProgram.op place = some op) :
    Leading (fun next => next.timeout = place.timeout) op := by
  cases place with
  | semaphore semaphore place =>
      obtain ⟨inner, isInner, rfl⟩ := Option.map_eq_some_iff.mp isNext
      rcases place with ⟨timeout, place | status⟩ | place | status
      · obtain rfl := Option.some_inj.mp isInner
        rw [Op.map_map]
        apply leading_map
        exact fun _ => rfl
      · cases isInner
      · obtain rfl := Option.some_inj.mp isInner
        rw [Op.map_map]
        apply leading_map
        exact fun _ => rfl
      · cases isInner
  | osMutexAcquire mutex self timeout place =>
      cases place with
      | inl place =>
          obtain rfl := Option.some_inj.mp isNext
          apply leading_map
          exact fun _ => rfl
      | inr status => cases isNext
  | eventFlags eventflags place =>
      obtain ⟨inner, isInner, rfl⟩ := Option.map_eq_some_iff.mp isNext
      rcases place with ⟨_, _, place | _⟩ | ⟨_, place | _⟩ | (place | _) | ⟨_, _, place | _⟩
      all_goals
        cases isInner
        try
          rw [Op.map_map]
          apply leading_map
          exact fun _ => rfl
  | mtxLock mtx self msec place =>
      cases place with
      | inl place =>
          obtain rfl := Option.some_inj.mp isNext
          apply leading_map
          exact fun _ => rfl
      | inr status => cases isNext

theorem timeout_of_waitTicks {ticks : Word} (isNext : blockingProgram.op place = some op)
    (waits : waitTicks op = some ticks) : place.timeout = some ticks := by
  cases place with
  | semaphore semaphore place =>
      obtain ⟨inner, isInner, rfl⟩ := Option.map_eq_some_iff.mp isNext
      rw [waitTicks_map] at waits
      rcases place with ⟨timeout, (_ | _) | _⟩ | (_ | _ | _) | _
      all_goals
        cases isInner
        try cases waits
      rfl
  | osMutexAcquire mutex self timeout place =>
      cases place with
      | inl place =>
          obtain rfl := Option.some_inj.mp isNext
          rw [waitTicks_map, osMutexAcquire, waitTicks_map] at waits
          rw [waitTicks_lockLoop waits]
          rfl
      | inr status => cases isNext
  | eventFlags eventflags place =>
      obtain ⟨inner, isInner, rfl⟩ := Option.map_eq_some_iff.mp isNext
      rw [waitTicks_map] at waits
      rcases place with ⟨_, _, (_ | _) | _⟩ | ⟨_, _ | _⟩ | (_ | _) | ⟨_, _, (_ | _ | _ | _ | _) | _⟩
      all_goals
        cases isInner
        try cases waits
      rfl
  | mtxLock mtx self msec place =>
      cases place with
      | inl place =>
          obtain rfl := Option.some_inj.mp isNext
          rw [waitTicks_map, mtxLockFor, waitTicks_map] at waits
          rw [waitTicks_lockLoop waits]
          rfl
      | inr status => cases isNext

section Log

variable {cores : Nat} [NeZero cores] {machine next : Machine cores Unit BlockingPlace}
  {log : CallLog}

theorem timeout_of_act {core : Fin cores} {index : Nat}
    (moved : Machine.step blockingProgram (fun _ => false) machine (.act core index) = some next) :
    next.calls.map (fun call => call.place.timeout) =
      machine.calls.map fun call => call.place.timeout := by
  have stays : ∀ (call moving : Call cores BlockingPlace), machine.calls[index]? = some call →
      moving.place.timeout = call.place.timeout →
      (machine.calls.set index moving).map (fun call => call.place.timeout) =
        machine.calls.map fun call => call.place.timeout := by
    intro call moving found same
    obtain ⟨bound, isCall⟩ := List.getElem?_eq_some_iff.mp found
    apply List.ext_getElem?
    intro position
    rw [List.map_set, same]
    by_cases own : index = position
    · subst own
      rw [List.getElem?_set_self (by simpa using bound), List.getElem?_map, found]
      rfl
    · rw [List.getElem?_set_ne own]
  simp only [Machine.step] at moved
  split at moved
  · cases moved
  · rename_i call found
    rw [Option.ite_none_right_eq_some] at moved
    obtain ⟨_, moved⟩ := moved
    simp only [Machine.act] at moved
    split at moved
    · cases moved
    · rename_i address act isNext
      obtain rfl := Option.some_inj.mp moved
      exact stays call _ found (leading_timeout isNext _)
    · rename_i act isNext
      obtain rfl := Option.some_inj.mp moved
      exact stays call _ found (leading_timeout isNext _)
    · rename_i request resume isNext
      have leads := leading_timeout isNext
      cases request with
      | init futex value flags =>
          obtain ⟨kernel, _, rfl⟩ := Option.map_eq_some_iff.mp moved
          exact stays call _ found (leads _)
      | wake futex all =>
          obtain ⟨kernel, _, rfl⟩ := Option.map_eq_some_iff.mp moved
          exact stays call _ found (leads _)
      | state task =>
          obtain rfl := Option.some_inj.mp moved
          exact stays call _ found (leads _)
      | wait futex expected ticks =>
          simp only [ask] at moved
          split at moved
          · cases moved
          · split at moved
            · obtain rfl := Option.some_inj.mp moved
              exact stays call _ found (leads _)
            · obtain ⟨kernel, _, rfl⟩ := Option.map_eq_some_iff.mp moved
              exact stays call _ found rfl

/-- The log knows the timeout of each call, and each wait in it was given the timeout of its call. -/
structure Logged (machine : Machine cores Unit BlockingPlace) (log : CallLog) : Prop where
  timeouts : log.calls.map MadeCall.timeout = machine.calls.map fun call => call.place.timeout
  earlier : ∀ call ∈ log.calls, call.tick ≤ log.now
  whole : ∀ wait ∈ log.waits, wait.call.timeout = some wait.ticks ∧ wait.call.tick ≤ wait.tick

omit [NeZero cores] in
theorem Logged.issued (logged : Logged machine log) {label : Label cores BlockingCall}
    {wait : IssuedWait} (isWait : log.issued machine label = some wait) :
    wait.call.timeout = some wait.ticks ∧ wait.call.tick ≤ wait.tick := by
  cases label with
  | act core index =>
      obtain ⟨ticks, issues, isWait⟩ := Option.bind_eq_some_iff.mp isWait
      obtain ⟨made, isMade, rfl⟩ := Option.map_eq_some_iff.mp isWait
      refine ⟨?_, logged.earlier made (List.mem_of_getElem? isMade)⟩
      obtain ⟨call, found, issues⟩ := Option.bind_eq_some_iff.mp issues
      rw [Option.ite_none_left_eq_some] at issues
      obtain ⟨op, isNext, waits⟩ := Option.bind_eq_some_iff.mp issues.2
      have same := congrArg (fun timeouts => timeouts[index]?) logged.timeouts
      simp only [List.getElem?_map, isMade, found, Option.map_some, Option.some_inj] at same
      exact same.trans (timeout_of_waitTicks isNext waits)
  | _ => cases isWait

theorem Logged.step (logged : Logged machine log) {label : Label cores BlockingCall}
    (moved : Machine.step blockingProgram (fun _ => false) machine label = some next) :
    Logged next (log.after machine next label) := by
  have later : ∀ (ticks : Nat), ∀ call ∈ log.calls, call.tick ≤ log.now + ticks := by
    intro ticks call member
    have before := logged.earlier call member
    omega
  have begun : ∀ (context : Context) (call : BlockingCall) (calls : List (Call cores BlockingPlace))
      (owner : Owner cores),
      calls = machine.calls ++ [⟨owner, blockingProgram.enter (context, call), false⟩] →
      (log.calls ++ [(⟨log.now, call.timeout⟩ : MadeCall)]).map MadeCall.timeout =
        calls.map fun call => call.place.timeout := by
    rintro context call calls owner rfl
    rw [List.map_append, List.map_append, logged.timeouts]
    simp only [List.map_cons, List.map_nil, timeout_enter]
  have added : ∀ (call : BlockingCall), ∀ made ∈ log.calls ++ [⟨log.now, call.timeout⟩],
      made.tick ≤ log.now := by
    intro call made member
    rcases List.mem_append.mp member with before | new
    · exact logged.earlier made before
    · rw [List.mem_singleton.mp new]
  cases label with
  | kernel action =>
      obtain ⟨_, _, calls, _⟩ := Machine.calling_of_kernel moved
      refine ⟨?_, later _, logged.whole⟩
      rw [calls]
      exact logged.timeouts
  | call core call =>
      obtain ⟨caller, _, _, rfl⟩ := Machine.calls_of_call moved
      exact ⟨begun .thread call _ _ rfl, added call, logged.whole⟩
  | interrupt core call =>
      obtain rfl := Option.some_inj.mp moved
      exact ⟨begun .handler call _ _ rfl, added call, logged.whole⟩
  | act core index =>
      refine ⟨logged.timeouts.trans (timeout_of_act moved).symm, logged.earlier, ?_⟩
      intro wait member
      rcases List.mem_append.mp member with before | new
      · exact logged.whole wait before
      · exact logged.issued (Option.mem_toList.mp new)

/-- A wait that is given the timeout of its call is within the budget only at the tick of the call. -/
theorem IssuedWait.inBudget_iff {wait : IssuedWait} (whole : wait.call.timeout = some wait.ticks)
    (later : wait.call.tick ≤ wait.tick) :
    wait.InBudget ↔ (wait.call.timed → wait.tick = wait.call.tick) := by
  constructor
  · intro inBudget timed
    have bound := inBudget timed
    rw [whole, Option.getD_some] at bound
    omega
  · intro atOnce timed
    rw [whole, Option.getD_some, atOnce timed]

/-- In every run in which timed calls issue their waits at the tick at which they were made, each wait is
given no more than what is left of the timeout; and this is so of the next wait exactly if it is issued at
that tick. -/
theorem inBudget_of_guarded {recorded : Machine cores Unit BlockingPlace × CallLog}
    (reached : (blockingSystem cores).Guarded WaitsAtOnce recorded) :
    (∀ wait ∈ recorded.2.waits, wait.InBudget) ∧
      ∀ label, (∀ wait ∈ recorded.2.issued recorded.1 label, wait.InBudget) ↔
        WaitsAtOnce recorded label := by
  have holds : Logged recorded.1 recorded.2 ∧ ∀ wait ∈ recorded.2.waits, wait.InBudget := by
    refine reached.invariant (motive := fun recorded => Logged recorded.1 recorded.2 ∧
      ∀ wait ∈ recorded.2.waits, wait.InBudget) ?_ ?_
    · rintro ⟨machine, log⟩ ⟨begins, rfl⟩
      refine ⟨⟨?_, List.forall_mem_nil _, List.forall_mem_nil _⟩, List.forall_mem_nil _⟩
      rw [Machine.Begins.calls begins]
      rfl
    · rintro ⟨machine, log⟩ label ⟨next, logNext⟩ ⟨logged, inBudget⟩ atOnce moved
      obtain ⟨_, moved⟩ := Option.ite_none_right_eq_some.mp moved
      obtain ⟨_, stepped, same⟩ := Option.map_eq_some_iff.mp moved
      obtain ⟨rfl, rfl⟩ := Prod.mk.inj same
      refine ⟨logged.step stepped, ?_⟩
      cases label with
      | act core index =>
          intro wait member
          rcases List.mem_append.mp member with before | new
          · exact inBudget wait before
          · have isWait := Option.mem_toList.mp new
            obtain ⟨whole, later⟩ := logged.issued isWait
            exact (IssuedWait.inBudget_iff whole later).mpr (atOnce wait isWait)
      | _ => exact inBudget
  refine ⟨holds.2, fun label => ?_⟩
  constructor
  · intro inBudget wait isWait
    obtain ⟨whole, later⟩ := holds.1.issued isWait
    exact (IssuedWait.inBudget_iff whole later).mp (inBudget wait isWait)
  · intro atOnce wait isWait
    obtain ⟨whole, later⟩ := holds.1.issued isWait
    exact (IssuedWait.inBudget_iff whole later).mpr (atOnce wait isWait)

end Log

section Runs

def noToken : RtosSemaphore := { maxCount := 1, value := 0x104, futex := 0x100 }

/-- A run on one core, found by evaluation: some steps of the scheduler, then steps of the calls. -/
theorem exists_blocking
    (guard : Machine 1 Unit BlockingPlace × CallLog → Label 1 BlockingCall → Prop)
    [∀ recorded label, Decidable (guard recorded label)] (setup : List (Action 1))
    (labels : List (Label 1 BlockingCall))
    (check : Machine 1 Unit BlockingPlace × CallLog → Prop) [DecidablePred check]
    (found : ((scheduler 1).run (fun _ _ => True) (bootState 1) setup).any fun state =>
      ((blockingSystem 1).run guard (⟨state, (), [], fun _ => none⟩, {}) labels).any fun final =>
        decide (check final)) :
    ∃ recorded, (blockingSystem 1).Guarded guard recorded ∧ check recorded := by
  obtain ⟨state, prepared, found⟩ := (Option.any_eq_true _ _).mp found
  obtain ⟨final, performed, checked⟩ := (Option.any_eq_true _ _).mp found
  have booted : (scheduler 1).Reachable state :=
    System.run_guarded (.start (initial_bootState 1)) prepared
  have begins : (blockingSystem 1).initial (⟨state, (), [], fun _ => none⟩, {}) :=
    ⟨⟨booted, nofun, nofun, rfl, rfl, rfl⟩, rfl⟩
  exact ⟨final, System.run_guarded (.start begins) performed, of_decide_eq_true checked⟩

/-- A thread waits for a token, is woken when another one releases it, finds it taken again, and waits once
more, all at one tick. -/
theorem inBudget_of_guarded_acquire :
    ∃ recorded, (blockingSystem 1).Guarded WaitsAtOnce recorded ∧
      recorded.2.waits = [⟨⟨0, some 3⟩, 0, 3⟩, ⟨⟨0, some 3⟩, 0, 3⟩] ∧
      ∀ wait ∈ recorded.2.waits, wait.InBudget := by
  obtain ⟨recorded, reached, waits⟩ := exists_blocking WaitsAtOnce
    ([.create 0 0x1000 { flags := schedulerPrimordialTask, priority := 33 },
      .create 0 0x2000 { priority := 32 }, .futexInit 0x100 0x104 0, .start 0] ++ switchPass)
    (List.flatten [[.call 0 (.semaphore noToken (.osSemaphoreAcquire 3))],
      List.replicate 2 (.act 0 0), switchPass.map .kernel,
      [.kernel (.create 0 0x4000 { priority := 31 })], switchPass.map .kernel,
      [.call 0 (.semaphore noToken .osSemaphoreRelease)], List.replicate 3 (.act 0 1),
      switchPass.map .kernel, [.call 0 (.semaphore noToken (.osSemaphoreAcquire 0)), .act 0 2],
      (.suspend 0 0 :: switchPass).map .kernel, List.replicate 3 (.act 0 0),
      List.replicate 2 (.kernel (.tick 0))])
    (fun recorded => recorded.2.waits = [⟨⟨0, some 3⟩, 0, 3⟩, ⟨⟨0, some 3⟩, 0, 3⟩])
    (by decide)
  exact ⟨recorded, reached, waits, (inBudget_of_guarded reached).1⟩

/-- A thread that is woken after two of three ticks finds the token taken again, and is given three more;
it is blocked when its timeout is over. -/
theorem not_inBudget :
    ∃ recorded, (blockingSystem 1).Reachable recorded ∧
      recorded.2.waits = [⟨⟨0, some 3⟩, 0, 3⟩, ⟨⟨0, some 3⟩, 2, 3⟩] ∧
      (∃ wait ∈ recorded.2.waits, ¬wait.InBudget) ∧ recorded.2.now = 0 + 4 ∧
      (recorded.1.kernel.task 0x2000).state = .blocked := by
  exact exists_blocking (fun _ _ => True)
    ([.create 0 0x1000 { flags := schedulerPrimordialTask, priority := 33 },
      .create 0 0x2000 { priority := 32 }, .futexInit 0x100 0x104 0, .start 0] ++ switchPass)
    (List.flatten [[.call 0 (.semaphore noToken (.osSemaphoreAcquire 3))],
      List.replicate 2 (.act 0 0), switchPass.map .kernel, List.replicate 2 (.kernel (.tick 0)),
      [.kernel (.create 0 0x4000 { priority := 31 })], switchPass.map .kernel,
      [.call 0 (.semaphore noToken .osSemaphoreRelease)], List.replicate 3 (.act 0 1),
      switchPass.map .kernel, [.call 0 (.semaphore noToken (.osSemaphoreAcquire 0)), .act 0 2],
      (.suspend 0 0 :: switchPass).map .kernel, List.replicate 3 (.act 0 0),
      List.replicate 2 (.kernel (.tick 0))])
    (fun recorded => recorded.2.waits = [⟨⟨0, some 3⟩, 0, 3⟩, ⟨⟨0, some 3⟩, 2, 3⟩] ∧
      (∃ wait ∈ recorded.2.waits, ¬wait.InBudget) ∧ recorded.2.now = 0 + 4 ∧
      (recorded.1.kernel.task 0x2000).state = .blocked) (by decide)

end Runs

end PicoToolkit
