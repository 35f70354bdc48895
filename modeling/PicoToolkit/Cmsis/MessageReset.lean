import PicoToolkit.Cmsis.MessageConservation
import PicoToolkit.Threads.Blocking

/-!
`osMessageQueueReset`: it looks at the count first and takes a token afterwards, so it waits if the
token is gone by then.
-/

namespace PicoToolkit

open Transition Interleaving QueuePlace

variable {Content : Type}

namespace QueuePlace

def isResetting : QueuePlace Content → Bool
  | .resetCount _ | .resetAcquire _ _ | .resetPop _ | .resetEmpty _ | .resetFree _ _ _ => true
  | _ => false

/-- The call does not wait for a token in Reset, and has not returned an error from there. -/
def ResetsWell : QueuePlace Content → Prop
  | .resetAcquire _ .wait => False
  | .resetDone _ status => status = .osOK
  | _ => True

end QueuePlace

def FindsToken (queue : RtosMessageQueue)
    (shared : Shared Word Word (QueueData Content) (QueuePlace Content)) :
    Move Result (Context × QueueCall Content) → Prop
  | .act index _ =>
      match shared.places[index]? with
      | some (.resetAcquire _ (.exchange _)) => shared.memory queue.value ≠ 0
      | _ => True
  | .call _ => True

instance (queue : RtosMessageQueue)
    (shared : Shared Word Word (QueueData Content) (QueuePlace Content))
    (move : Move Result (Context × QueueCall Content)) : Decidable (FindsToken queue shared move) := by
  unfold FindsToken
  split
  · split
    · exact inferInstance
    · exact inferInstance
  · exact inferInstance

theorem notWait_of_resetsWell {queue : RtosMessageQueue} {place : QueuePlace Content}
    (resetting : place.isResetting) (well : place.ResetsWell) {futex expected ticks : Word}
    {resume : Result → QueuePlace Content} :
    queueOp queue place ≠ some (.service (.wait futex expected ticks) resume) := by
  intro isNext
  cases place with
  | resetAcquire discarded acquiring =>
      cases acquiring with
      | exchange expected => cases isNext
      | wait => exact well
  | resetFree discarded block freeing =>
      rcases freeing with context | releasing | status
      · cases isNext
      · cases releasing with
        | _ => cases isNext
      · cases isNext
  | resetCount | resetPop | resetEmpty => cases isNext
  | _ => cases resetting

theorem isSome_of_isResetting (queue : RtosMessageQueue) {place : QueuePlace Content}
    (resetting : place.isResetting) : (queueOp queue place).isSome := by
  cases place with
  | resetCount | resetAcquire | resetPop | resetEmpty | resetFree => rfl
  | _ => cases resetting

theorem resetsWell_afterAlloc (put : Message Content) (timeout : Word) (context : Context)
    (result : AllocPlace ⊕ Word) : (afterAlloc put timeout context result).ResetsWell := by
  rcases result with place | block
  · trivial
  · simp only [afterAlloc]
    split
    · trivial
    · trivial

theorem resetsWell_afterPutRelease (put : Message Content) (context : Context) (block : Word)
    (result : ReleasePlace ⊕ OsStatus) : (afterPutRelease put context block result).ResetsWell := by
  rcases result with place | status
  · trivial
  · cases status with
    | _ => trivial

theorem resetsWell_afterGetAcquire (timeout : Word) (context : Context)
    (result : AcquirePlace ⊕ OsStatus) :
    (afterGetAcquire timeout context result : QueuePlace Content).ResetsWell := by
  rcases result with place | status
  · trivial
  · cases status with
    | _ => trivial

theorem resetsWell_afterGetFree (got : Message Content) (block : Word)
    (result : FreePlace ⊕ OsStatus) : (afterGetFree got block result).ResetsWell := by
  cases result with
  | _ => trivial

theorem resetsWell_afterResetFree (discarded : List (Message Content)) (block : Word)
    (result : ReleasePlace ⊕ OsStatus) :
    (afterResetFree discarded block (FreePlace.afterRelease result)).ResetsWell := by
  rcases result with place | status
  · trivial
  · cases status with
    | _ => trivial

section

variable [DecidableEq Content] {queue : RtosMessageQueue} {free : List Word}
  {shared next : Shared Word Word (QueueData Content) (QueuePlace Content)} {index : Nat}
  {place : QueuePlace Content} {answer : Result}

omit [DecidableEq Content] in
theorem resetsWell_exchange {discarded : List (Message Content)}
    {expected : { expected : Word // expected ≠ 0 }} (positive : shared.memory queue.dataAvailable.value ≠ 0) :
    ∃ after, (Program.perform shared index answer
        ((osSemaphoreAcquire queue.dataAvailable osWaitForever (.exchange expected)).map
          (afterResetAcquire discarded))).places = shared.places.set index after ∧
      after.ResetsWell := by
  refine ⟨_, rfl, ?_⟩
  beta_reduce
  by_cases taken : shared.memory queue.dataAvailable.value = expected
  · rw [if_pos taken]
    trivial
  · rw [if_neg taken, dif_neg positive]
    trivial

theorem resetsWell_act (accounted : Accounted queue free shared)
    (token : FindsToken queue shared (.act index answer))
    (found : shared.places[index]? = some place) (well : place.ResetsWell)
    (moved : (queueProgram queue).step shared (.act index answer) = some next) :
    ∃ after, next.places = shared.places.set index after ∧ after.ResetsWell := by
  obtain ⟨_, op, foundAgain, isNext, rfl⟩ := Program.step_act moved
  obtain rfl := Option.some_inj.mp (found.symm.trans foundAgain)
  have sound := accounted.sound place (List.mem_of_getElem? found)
  cases place with
  | putAlloc put timeout context place =>
      obtain rfl := Option.some_inj.mp isNext
      cases place with
      | acquire acquiring =>
          rw [osMemoryPoolAlloc, ofPool_acquire, Op.map_map]
          cases acquiring with
          | _ => exact ⟨_, rfl, resetsWell_afterAlloc _ _ _ _⟩
      | pop => exact ⟨_, rfl, resetsWell_afterAlloc _ _ _ _⟩
  | putLoad put context block =>
      obtain rfl := Option.some_inj.mp isNext
      exact ⟨_, rfl, trivial⟩
  | putInsert put context block =>
      obtain rfl := Option.some_inj.mp isNext
      exact ⟨_, rfl, resetsWell_afterPutRelease _ _ _ _⟩
  | putRelease put context block place =>
      obtain rfl := Option.some_inj.mp isNext
      cases place with
      | _ => exact ⟨_, rfl, resetsWell_afterPutRelease _ _ _ _⟩
  | getAcquire timeout context place =>
      obtain rfl := Option.some_inj.mp isNext
      cases place with
      | _ => exact ⟨_, rfl, resetsWell_afterGetAcquire _ _ _⟩
  | getPop context =>
      obtain rfl := Option.some_inj.mp isNext
      obtain ⟨first, rest, isFirst⟩ := accounted.exists_first found (show (-1 : Int) < 0 by decide)
      simp only [Program.perform, isFirst]
      exact ⟨_, rfl, trivial⟩
  | getCopy context block removed =>
      obtain rfl := Option.some_inj.mp isNext
      exact ⟨_, rfl, resetsWell_afterGetFree _ _ _⟩
  | getFree got block place =>
      obtain rfl := Option.some_inj.mp isNext
      cases place with
      | push => exact ⟨_, rfl, resetsWell_afterGetFree _ _ _⟩
      | release releasing =>
          rw [osMemoryPoolFree, ofPool_release, Op.map_map]
          cases releasing with
          | _ => exact ⟨_, rfl, resetsWell_afterGetFree _ _ _⟩
      | remove => cases sound
  | resetCount discarded =>
      obtain rfl := Option.some_inj.mp isNext
      refine ⟨_, rfl, ?_⟩
      split
      · trivial
      · rfl
  | resetAcquire discarded place =>
      obtain rfl := Option.some_inj.mp isNext
      cases place with
      | exchange expected =>
          simp only [FindsToken, found] at token
          exact resetsWell_exchange token
      | wait => exact well.elim
  | resetPop discarded =>
      obtain rfl := Option.some_inj.mp isNext
      obtain ⟨first, rest, isFirst⟩ := accounted.exists_first found (by
        simp only [QueuePlace.available, QueuePlace.listed, account]
        omega)
      obtain ⟨_, inside, _⟩ := accounted.mem_messages (isFirst ▸ List.mem_cons_self)
      simp only [Program.perform, isFirst, osMemoryPoolFreeStart_of_mem inside]
      exact ⟨_, rfl, trivial⟩
  | resetFree discarded block place =>
      obtain rfl := Option.some_inj.mp isNext
      cases place with
      | push => exact ⟨_, rfl, resetsWell_afterResetFree _ _ _⟩
      | release releasing =>
          rw [osMemoryPoolFree, ofPool_release, Op.map_map]
          cases releasing with
          | _ => exact ⟨_, rfl, resetsWell_afterResetFree _ _ _⟩
      | remove => cases sound
  | putRemove | putFree | getEmpty | resetEmpty => cases sound
  | putDone | getDone | resetDone => cases isNext

omit [DecidableEq Content] in
theorem resetsWell_enter (queue : RtosMessageQueue) (call : QueueCall Content) :
    ((queueProgram queue).enter (.thread, call)).ResetsWell := by
  cases call with
  | osMessageQueuePut message timeout =>
      simp only [queueProgram, osMessageQueuePutStart]
      split
      · trivial
      · split
        · trivial
        · exact resetsWell_afterAlloc _ _ _ _
  | osMessageQueueGet timeout =>
      simp only [queueProgram, osMessageQueueGetStart]
      split
      · trivial
      · split
        · trivial
        · exact resetsWell_afterGetAcquire _ _ _
  | osMessageQueueReset => trivial

end

section

variable [DecidableEq Content] {cores : Nat} [NeZero cores] {queue : RtosMessageQueue}
  {contents : Word → Word} {content : Word → Content}
  {machine : Machine cores (QueueData Content) (QueuePlace Content)}

theorem resetsWell_of_guarded
    (reached : (queueSystem cores queue contents content).Guarded
      (Machine.Meets (queueProgram queue) queue.cells (FindsToken queue)) machine) :
    ∀ call ∈ machine.calls, ∀ task, call.owner = .task task → call.place.ResetsWell := by
  induction reached with
  | start begins =>
      intro call member
      rw [begins.calls] at member
      cases member
  | @step machine label next before meets moved ih =>
      have moved : Machine.step (queueProgram queue) queue.cells machine label = some next := moved
      have sound := (shared_of_machine (confined_queueProgram queue) before).1
      obtain ⟨free, accounted⟩ := invariant_of_machine (fun shared => ∃ free, Accounted queue free shared)
        (confined_queueProgram queue) ⟨_, accounted_initial queue contents content⟩
        (fun shared move next ⟨free, accounted⟩ _ moved => accounted.step moved) before
      cases label with
      | kernel action =>
          obtain ⟨_, _, calls, _⟩ := Machine.calling_of_kernel moved
          rw [calls]
          exact ih
      | call core entry =>
          obtain ⟨caller, _, _, rfl⟩ := Machine.calls_of_call moved
          intro call member task owner
          rcases List.mem_append.mp member with old | new
          · exact ih call old task owner
          · obtain rfl := List.mem_singleton.mp new
            exact resetsWell_enter queue entry
      | interrupt core entry =>
          obtain rfl := Option.some_inj.mp moved
          intro call member task owner
          rcases List.mem_append.mp member with old | new
          · exact ih call old task owner
          · obtain rfl := List.mem_singleton.mp new
            cases owner
      | act core index =>
          have follows := (Machine.step_shared (confined_queueProgram queue) sound moved).2
          obtain ⟨call, moving, found, _, calls, _, sameOwner⟩ := Machine.calls_of_act moved
          have bound : index < machine.calls.length := (List.getElem?_eq_some_iff.mp found).1
          have foundPlace : (machine.shared queue.cells).places[index]? = some call.place := by
            simp [Machine.shared, found]
          have placeNow : (next.shared queue.cells).places[index]? = some moving.place := by
            simp [Machine.shared, calls, bound]
          intro other member task owner
          rw [calls] at member
          rcases List.mem_or_eq_of_mem_set member with old | rfl
          · exact ih other old task owner
          · have well := ih call (List.mem_of_getElem? found) task (sameOwner.symm.trans owner)
            rw [Machine.Meets] at meets
            cases isMove : machine.move (queueProgram queue) (.act core index) with
            | none =>
                rw [isMove] at follows
                rw [follows, foundPlace] at placeNow
                rwa [← Option.some_inj.mp placeNow]
            | some move =>
                obtain ⟨answer, rfl⟩ := Machine.move_act isMove
                rw [isMove] at follows meets
                obtain ⟨after, places, wellAfter⟩ :=
                  resetsWell_act accounted meets foundPlace well follows
                have length : index < (machine.shared queue.cells).places.length := by
                  simpa [Machine.shared] using bound
                rw [places, List.getElem?_set_self length] at placeNow
                rwa [← Option.some_inj.mp placeNow]

/-- As long as Reset finds a token at each of its compare-exchanges, a thread in it is never in the
queue of the semaphore's futex, and it returns without an error. -/
theorem reset_of_guarded
    (reached : (queueSystem cores queue contents content).Guarded
      (Machine.Meets (queueProgram queue) queue.cells (FindsToken queue)) machine) :
    (∀ task call, machine.callOf task = some call → call.place.isResetting →
      task ∉ machine.kernel.queue (.waiters queue.futex)) ∧
    ∀ call ∈ machine.calls, ∀ task discarded status, call.owner = .task task →
      call.place = .resetDone discarded status → status = .osOK := by
  have well := resetsWell_of_guarded reached
  have attentive := attentive_of_guarded (confined_queueProgram queue) reached
  constructor
  · intro task call isLast resetting
    obtain ⟨index, isCalling, found⟩ := Machine.callOf_eq.mp isLast
    obtain ⟨_, foundOwn, owner⟩ := attentive.own task index isCalling
    obtain rfl := Option.some_inj.mp (found.symm.trans foundOwn)
    have member := List.mem_of_getElem? found
    have wellHere := well call member task owner
    have noWait : call.waiting = false := by
      by_contra isWaiting
      obtain ⟨futex, expected, ticks, resume, isNext⟩ :=
        attentive.atWait call member (Bool.not_eq_false _ ▸ isWaiting)
      exact notWait_of_resetsWell resetting wellHere isNext
    have inside : machine.inside (queueProgram queue) task := by
      simp only [Machine.inside, isLast, Option.any_some, queueProgram, Bool.not_false, Bool.and_true]
      exact isSome_of_isResetting queue resetting
    exact attentive.waits task call isLast inside noWait queue.futex
  · intro call member task discarded status owner isDone
    have wellHere := well call member task owner
    rw [isDone] at wellHere
    exact wellHere

theorem reset_of_guarded_discarded :
    ∃ machine : Machine 1 (QueueData Nat) (QueuePlace Nat),
      machine.calls.map Call.place =
          [.putDone ⟨1, 7⟩ .osOK, .resetDone [⟨1, 7⟩] .osOK] ∧
        (∀ task call, machine.callOf task = some call → call.place.isResetting →
          task ∉ machine.kernel.queue (.waiters twoMessages.futex)) ∧
        ∀ call ∈ machine.calls, ∀ task discarded status, call.owner = .task task →
          call.place = .resetDone discarded status → status = .osOK := by
  obtain ⟨machine, reached, discarded⟩ := exists_machine (queueProgram twoMessages)
    (Machine.Meets (queueProgram twoMessages) twoMessages.cells (FindsToken twoMessages))
    [twoMessages.value, twoMessages.pool.value] twoMessages.initialMemory
    (twoMessages.initialData (fun _ => 0) fun _ => 0)
    (oneRunner ++ [.store 0x10c 2, .futexInit 0x100 0x104 0, .futexInit 0x108 0x10c 0])
    (List.flatten [[.call 0 (.osMessageQueuePut ⟨1, 7⟩ 0)], List.replicate 8 (.act 0 0),
      [.call 0 .osMessageQueueReset], List.replicate 7 (.act 0 1)])
    (fun machine => machine.calls.map Call.place =
      [.putDone ⟨1, 7⟩ .osOK, .resetDone [⟨1, 7⟩] .osOK]) (by decide)
  exact ⟨machine, discarded, reset_of_guarded reached⟩

theorem reset_waits :
    ¬∀ machine : Machine 1 (QueueData Nat) (QueuePlace Nat),
      (queueSystem 1 twoMessages (fun _ => 0) fun _ => 0).Reachable machine →
        ∀ task call, machine.callOf task = some call → call.place.isResetting →
          task ∉ machine.kernel.queue (.waiters twoMessages.futex) := by
  intro never
  obtain ⟨machine, reached, waits⟩ := exists_machine (queueProgram twoMessages)
    (fun _ _ => True) [twoMessages.value, twoMessages.pool.value] twoMessages.initialMemory
    (twoMessages.initialData (fun _ => 0) fun _ => 0)
    (oneRunner ++ [.store 0x10c 2, .futexInit 0x100 0x104 0, .futexInit 0x108 0x10c 0])
    (List.flatten [[.call 0 (.osMessageQueuePut ⟨1, 7⟩ 0)], List.replicate 8 (.act 0 0),
      [.call 0 .osMessageQueueReset, .act 0 1, .interrupt 0 (.osMessageQueueGet 0)],
      List.replicate 6 (.act 0 2), [.act 0 1, .act 0 1]])
    (fun machine => (machine.callOf 0x2000).any (fun call => call.place.isResetting) ∧
      0x2000 ∈ machine.kernel.queue (.waiters twoMessages.futex)) (by decide)
  obtain ⟨resets, waits⟩ := waits
  obtain ⟨call, isLast, resetting⟩ := (Option.any_eq_true _ _).mp resets
  exact never machine reached 0x2000 call isLast resetting waits

end

end PicoToolkit
