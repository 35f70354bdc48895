import PicoToolkit.Cmsis.ObjectCalls

/-!
Which lists are accessed with their lock: all of them, but for the list of active timers in the tick hook and
in two checks, and the list of all timers when a timer is deleted.
-/

namespace PicoToolkit.Objects

open Locking Transition

def homeList : ObjectNode → ListId
  | .resource object => .resource object.resourceId
  | .active _ => .activeTimers

/-- The accesses of the tick hook, the checks of `osTimerStop` and `osTimerIsRunning`, and the removal of a
deleted timer from the list of all timers. -/
def unlockedOps (entry : Context × ObjectCall) (op : RtosOp) : Bool :=
  match entry.2, op with
  | .schedulerTickHook _ _, _ => true
  | .osTimerStop _, .isLinked _ => true
  | .osTimerIsRunning _, .isLinked _ => true
  | .osTimerDelete _, .remove (.resource _) => true
  | _, _ => false

section Codes

variable {exempt : RtosOp → Bool} {held after : Option ListId} {context : Context} {object : RtosObject}
  {id : OsResourceId} {Result : Type}

abbrev Keeps (exempt : RtosOp → Bool) (held : Option ListId) (code : RtosCode Result) : Prop :=
  Respects homeList exempt held held code

theorem keeps_load (field : ObjectField) : Keeps exempt held (load object field) := .perform _

theorem keeps_store (field : ObjectField) (value : Word) :
    Keeps exempt held (store object field value) := ⟨trivial, fun _ _ => rfl⟩

theorem keeps_release : Keeps exempt held (release object) := ⟨trivial, fun _ _ => rfl⟩

theorem keeps_ask (request : ObjectRequest) : Keeps exempt held (ask request) := .perform _

theorem keeps_valid (marker : Word) : Keeps exempt held (osIsResourceValid object marker) :=
  (keeps_load _).bind fun _ => .pure _

theorem keeps_releaseDynamic : Keeps exempt held (releaseDynamic object) :=
  (keeps_load _).bind fun _ => .ite (fun _ => keeps_release) fun _ => .pure _

theorem keeps_listAdd {list : ListId} {node : ObjectNode} (belongs : list = homeList node)
    (isHeld : exempt (.insert list node) = true ∨ held = some list) :
    Keeps exempt held (listAdd list node) := .insert belongs isHeld

theorem keeps_listRemove {node : ObjectNode}
    (isHeld : exempt (.remove node) = true ∨ held = some (homeList node)) :
    Keeps exempt held (listRemove node) := .remove isHeld

theorem keeps_listIsLinked {node : ObjectNode}
    (isHeld : exempt (.isLinked node) = true ∨ held = some (homeList node)) :
    Keeps exempt held (listIsLinked node) := .isLinked isHeld

theorem keeps_add (belongs : object.resourceId = id) :
    Keeps exempt none (osKernelResourceAdd context id object) := by
  subst belongs
  apply Respects.returnOr
  apply Respects.lock rfl
  refine Respects.bind (keeps_listAdd rfl (Or.inr rfl)) fun _ => ?_
  exact .unlock rfl (.pure _)

theorem keeps_remove (belongs : exempt (.remove (.resource object)) = true ∨ object.resourceId = id) :
    Keeps exempt none (osKernelResourceRemove context id object) := by
  apply Respects.returnOr
  apply Respects.lock rfl
  apply (keeps_listRemove (belongs.imp_right fun same => by rw [homeList, same])).bind
  intro _
  exact .unlock rfl (.pure _)

section ForEach

variable {Given : Type} {func : RtosObject → Given → RtosCode (Word × Given)}

theorem keeps_forEachResource {nodes : List ObjectNode}
    (belong : ∀ node ∈ nodes, homeList node = .resource id)
    (calls : ∀ object given, object.resourceId = id →
      Keeps exempt (some (.resource id)) (func object given)) (given : Given) :
    Keeps exempt (some (.resource id)) (forEachResource func nodes given) := by
  induction nodes generalizing given with
  | nil => exact .pure _
  | cons node rest ih =>
      have later := ih fun other member => belong other (List.mem_cons_of_mem _ member)
      cases node with
      | active timer => exact later given
      | resource object =>
          have isOne : object.resourceId = id :=
            ListId.resource.inj (belong (.resource object) List.mem_cons_self)
          apply (calls object given isOne).bind
          intro (status, given)
          exact .returnOr (later given)

theorem keeps_forEach (calls : ∀ object given, object.resourceId = id →
      Keeps exempt (some (.resource id)) (func object given)) (given : Given) :
    Keeps exempt none (osKernelResourceForEach context id func given) := by
  apply Respects.returnOr
  apply Respects.lock rfl
  apply Respects.traverse (Or.inr rfl)
  intro nodes belong
  apply (keeps_forEachResource belong calls given).bind
  intro result
  exact .unlock rfl (.pure _)

end ForEach

theorem keeps_isRegistered : Keeps exempt none (osKernelResourceIsRegistered context id object) := by
  apply (keeps_forEach (fun _ _ _ => .pure _) object).bind
  intro (status, sought)
  exact .pure _

theorem keeps_getStateIsError (thread : Word) :
    Keeps exempt held (osThreadGetStateIsError context thread) := by
  apply Respects.returnOr
  apply (keeps_valid _).bind
  intro status
  apply Respects.returnOr
  apply (keeps_load _).bind
  intro attrBits
  apply Respects.ite
  · exact fun _ => .pure _
  · exact fun _ => (keeps_ask _).bind fun _ => .pure _

theorem keeps_dump : Keeps exempt none (osKernelResourceDump context id) := by
  apply (keeps_ask _).bind
  intro running
  apply Respects.returnOr
  cases dumpMarker id with
  | none => exact .pure _
  | some marker =>
      apply (keeps_forEach (fun _ _ _ => (keeps_valid _).bind fun _ => .pure _) marker).bind
      intro (status, given)
      exact .pure _

section Constructors

variable {Id Place : Type}

theorem keeps_controlBlock (attr : ObjectAttr Id) (own : Word → Id) :
    Keeps exempt held (controlBlock attr own) := by
  rw [controlBlock]
  cases attr.cbMem with
  | some id => exact .pure _
  | none => exact (keeps_ask _).bind fun _ => .pure _

theorem keeps_controlBlocks (attr : ObjectAttr Id) (own : Word → Id) :
    Keeps exempt held (controlBlocks attr own) := by
  rw [controlBlocks]
  cases attr.cbMem with
  | some id =>
      cases attr.dataMem with
      | _ => exact .pure _
  | none =>
      cases attr.dataMem with
      | true => exact .pure _
      | false => exact (keeps_ask _).bind fun _ => .pure _

theorem keeps_construct {attr : ObjectAttr Place} {own : Word → Place} {identify : Place → Word → Id}
    {object : Id → RtosObject} {marker : Word} {prepare : Id → RtosCode Unit} {id : Id → OsResourceId}
    (belongs : ∀ new, (object new).resourceId = id new) (prepares : ∀ new, Keeps exempt none (prepare new)) :
    Keeps exempt none (construct context attr own identify object marker prepare id) := by
  apply Respects.returnOr
  apply (keeps_controlBlock _ _).bind
  intro found
  cases found with
  | none => exact .pure _
  | some block =>
      apply (keeps_store _ _).bind
      intro _
      apply (keeps_store _ _).bind
      intro _
      apply (prepares _).bind
      intro _
      apply (keeps_add (belongs _)).bind
      intro status
      exact .ite (fun _ => keeps_releaseDynamic.bind fun _ => .pure _) fun _ => .pure _

theorem keeps_destroy {marker : Word} {parts : RtosCode OsStatus} (belongs : object.resourceId = id)
    (deletes : Keeps exempt none parts) :
    Keeps exempt none (destroy context object marker id parts) := by
  apply Respects.returnOr
  apply (keeps_valid _).bind
  intro valid
  apply Respects.returnOr
  apply (keeps_store _ _).bind
  intro _
  apply (keeps_remove (Or.inr belongs)).bind
  intro removed
  apply Respects.returnOr
  apply deletes.bind
  intro deleted
  exact .returnOr (keeps_releaseDynamic.bind fun _ => .pure _)

theorem keeps_osMutexNew (attr : ObjectAttr Word) : Keeps exempt none (osMutexNew context attr) :=
  keeps_construct (fun _ => rfl) fun _ => .pure _

theorem keeps_osSemaphoreNew (attr : ObjectAttr SemaphoreId) :
    Keeps exempt none (osSemaphoreNew context attr) :=
  keeps_construct (fun _ => rfl) fun _ => .pure _

theorem keeps_osEventFlagsNew (attr : ObjectAttr EventFlagsId) :
    Keeps exempt none (osEventFlagsNew context attr) :=
  keeps_construct (fun _ => rfl) fun _ => keeps_store _ _

theorem keeps_osTimerNew (func : Word) (type : OsTimerType) (attr : ObjectAttr Word) :
    Keeps exempt none (osTimerNew context func type attr) :=
  .returnOr (keeps_construct (fun _ => rfl) fun _ => keeps_store _ _)

theorem keeps_osMutexDelete (mutex : MutexId) : Keeps exempt none (osMutexDelete context mutex) :=
  keeps_destroy rfl (.pure _)

theorem keeps_osSemaphoreDelete (semaphore : SemaphoreId) :
    Keeps exempt none (osSemaphoreDelete context semaphore) :=
  keeps_destroy rfl (.pure _)

theorem keeps_osEventFlagsDelete (eventflags : EventFlagsId) :
    Keeps exempt none (osEventFlagsDelete context eventflags) := by
  apply Respects.returnOr
  apply (keeps_valid _).bind
  intro valid
  apply Respects.returnOr
  apply (keeps_load _).bind
  intro waiters
  apply Respects.returnOr
  refine Respects.bind (keeps_remove (Or.inr rfl)) fun removed => ?_
  exact .returnOr (keeps_releaseDynamic.bind fun _ => .pure _)

theorem keeps_osMemoryPoolDelete (pool : PoolId) : Keeps exempt none (osMemoryPoolDelete context pool) :=
  keeps_destroy rfl (keeps_osSemaphoreDelete _)

theorem keeps_osMessageQueueDelete (queue : Word) :
    Keeps exempt none (osMessageQueueDelete context queue) := by
  apply keeps_destroy rfl
  apply (keeps_osSemaphoreDelete _).bind
  intro status
  exact .returnOr (keeps_osMemoryPoolDelete _)

theorem keeps_osDequeDelete (deque : Word) : Keeps exempt none (osDequeDelete context deque) :=
  keeps_destroy rfl (keeps_osEventFlagsDelete _)

theorem keeps_storeBits (attrBits : Word) (allocated : Bool) :
    Keeps exempt held (storeBits object attrBits allocated) :=
  .ite (fun _ => keeps_store _ _) fun _ => .pure _

theorem keeps_osMemoryPoolNew (blockSize : Word) (attr : ObjectAttr PoolId) :
    Keeps exempt none (osMemoryPoolNew context blockSize attr) := by
  apply Respects.returnOr
  apply Respects.returnOr
  apply (keeps_controlBlocks _ _).bind
  intro found
  cases found with
  | none => exact .pure _
  | some block =>
      apply (keeps_storeBits _ _).bind
      intro _
      apply (keeps_store _ _).bind
      intro _
      apply (keeps_osSemaphoreNew _).bind
      intro semaphore
      cases semaphore with
      | none => exact keeps_releaseDynamic.bind fun _ => .pure _
      | some semaphore =>
          refine Respects.bind (keeps_add rfl) fun status => ?_
          apply Respects.ite
          · intro _
            apply (keeps_osSemaphoreDelete _).bind
            exact fun _ => keeps_releaseDynamic.bind fun _ => .pure _
          · exact fun _ => .pure _

theorem keeps_osMessageQueueNew (msgSize : Word) (attr : ObjectAttr Word) :
    Keeps exempt none (osMessageQueueNew context msgSize attr) := by
  apply Respects.returnOr
  apply (keeps_controlBlocks _ _).bind
  intro found
  cases found with
  | none => exact .pure _
  | some block =>
      apply (keeps_storeBits _ _).bind
      intro _
      apply (keeps_store _ _).bind
      intro _
      apply (keeps_osMemoryPoolNew _ _).bind
      intro pool
      cases pool with
      | none => exact keeps_releaseDynamic.bind fun _ => .pure _
      | some pool =>
          apply (keeps_osSemaphoreNew _).bind
          intro semaphore
          cases semaphore with
          | none =>
              apply (keeps_osMemoryPoolDelete _).bind
              exact fun _ => keeps_releaseDynamic.bind fun _ => .pure _
          | some semaphore =>
              refine Respects.bind (keeps_add rfl) fun status => ?_
              apply Respects.ite
              · intro _
                apply (keeps_osSemaphoreDelete _).bind
                intro _
                apply (keeps_osMemoryPoolDelete _).bind
                exact fun _ => keeps_releaseDynamic.bind fun _ => .pure _
              · exact fun _ => .pure _

theorem keeps_osDequeNew (elementSize : Word) (attr : ObjectAttr Word) :
    Keeps exempt none (osDequeNew context elementSize attr) := by
  apply Respects.returnOr
  apply Respects.returnOr
  apply (keeps_controlBlocks _ _).bind
  intro found
  cases found with
  | none => exact .pure _
  | some block =>
      apply (keeps_storeBits _ _).bind
      intro _
      apply (keeps_store _ _).bind
      intro _
      apply (keeps_osEventFlagsNew _).bind
      intro events
      cases events with
      | none => exact keeps_releaseDynamic.bind fun _ => .pure _
      | some events =>
          refine Respects.bind (keeps_add rfl) fun status => ?_
          apply Respects.ite
          · intro _
            apply (keeps_osEventFlagsDelete _).bind
            exact fun _ => keeps_releaseDynamic.bind fun _ => .pure _
          · exact fun _ => .pure _

theorem keeps_osThreadNew (func : Word) (priority : Int) (attr : ObjectAttr Word) :
    Keeps exempt none (osThreadNew context func priority attr) := by
  apply Respects.returnOr
  apply Respects.returnOr
  apply Respects.returnOr
  apply (keeps_controlBlocks _ _).bind
  intro found
  cases found with
  | none => exact .pure _
  | some block =>
      apply (keeps_store _ _).bind
      intro _
      apply (keeps_store _ _).bind
      intro _
      apply (keeps_osEventFlagsNew _).bind
      intro flags
      cases flags with
      | none => exact keeps_releaseDynamic.bind fun _ => .pure _
      | some flags =>
          apply (keeps_osEventFlagsNew _).bind
          intro joiner
          cases joiner with
          | none =>
              apply (keeps_osEventFlagsDelete _).bind
              exact fun _ => keeps_releaseDynamic.bind fun _ => .pure _
          | some joiner =>
              have deletesBoth : Keeps exempt none (do
                  let _ ← osEventFlagsDelete context (.joiner block.1)
                  let _ ← osEventFlagsDelete context (.flags block.1)
                  releaseDynamic (.thread block.1)
                  return (none : Option Word)) := by
                apply (keeps_osEventFlagsDelete _).bind
                intro _
                apply (keeps_osEventFlagsDelete _).bind
                exact fun _ => keeps_releaseDynamic.bind fun _ => .pure _
              refine Respects.bind (keeps_add rfl) fun status => ?_
              apply Respects.ite
              · exact fun _ => deletesBoth
              · intro _
                apply (keeps_ask _).bind
                intro created
                apply Respects.ite
                · exact fun _ => Respects.bind (keeps_remove (Or.inr rfl)) fun _ => deletesBoth
                · exact fun _ => .pure _

end Constructors

section Threads

theorem keeps_osMutexGetOwner (mutex : MutexId) : Keeps exempt held (osMutexGetOwner context mutex) := by
  apply Respects.returnOr
  apply (keeps_valid _).bind
  intro valid
  apply Respects.returnOr
  apply (keeps_ask _).bind
  intro value
  exact .returnOr (keeps_ask _)

theorem keeps_capture (object : RtosObject) (capture : MutexCapture) :
    Keeps exempt held (osCaptureOwnedRobustMutexes context object capture) := by
  apply Respects.returnOr
  cases object with
  | mutex mutex => exact (keeps_osMutexGetOwner _).bind fun _ => .pure _
  | _ => exact .pure _

theorem keeps_releaseOwned (thread : Word) (mutex : MutexId) (times : Nat) :
    Keeps exempt held (releaseOwned context thread mutex times) := by
  induction times with
  | zero => exact .pure _
  | succ times ih =>
      apply (keeps_osMutexGetOwner _).bind
      intro owner
      apply Respects.returnOr
      apply (keeps_ask _).bind
      intro status
      exact .returnOr ih

theorem keeps_releaseCaptured (thread : Word) (times : Nat) (mutexes : List MutexId) :
    Keeps exempt held (releaseCaptured context thread times mutexes) := by
  induction mutexes with
  | nil => exact .pure _
  | cons mutex rest ih =>
      apply (keeps_releaseOwned _ _ _).bind
      intro status
      cases status with
      | none => exact .pure _
      | some status => exact .returnOr ih

theorem keeps_osReleaseRobustMutex (thread : Word) (times rounds : Nat) :
    Keeps exempt none (osReleaseRobustMutex context thread times rounds) := by
  induction rounds with
  | zero => exact .pure _
  | succ rounds ih =>
      apply (keeps_forEach (fun _ _ _ => keeps_capture _ _) _).bind
      intro (status, capture)
      apply Respects.returnOr
      apply (keeps_releaseCaptured _ _ _).bind
      intro released
      cases released with
      | none => exact .pure _
      | some released =>
          apply Respects.returnOr
          exact .ite (fun _ => ih) fun _ => .pure _

theorem keeps_osThreadGetId : Keeps exempt held osThreadGetId := by
  apply (keeps_ask _).bind
  intro current
  exact (keeps_valid _).bind fun _ => .pure _

theorem keeps_osThreadJoin (times rounds : Nat) (thread : Word) :
    Keeps exempt none (osThreadJoin context times rounds thread) := by
  apply Respects.returnOr
  apply keeps_isRegistered.bind
  intro registered
  apply Respects.returnOr
  apply (keeps_valid _).bind
  intro valid
  apply Respects.returnOr
  apply (keeps_getStateIsError _).bind
  intro isError
  apply Respects.returnOr
  apply (keeps_load _).bind
  intro attrBits
  apply Respects.returnOr
  apply keeps_osThreadGetId.bind
  intro self
  apply Respects.returnOr
  apply (keeps_ask _).bind
  intro flags
  apply Respects.returnOr
  refine Respects.bind (keeps_remove (Or.inr rfl)) fun removed => ?_
  apply Respects.returnOr
  apply (keeps_osReleaseRobustMutex _ _ _).bind
  intro released
  cases released with
  | none => exact .pure _
  | some released =>
      apply Respects.returnOr
      apply (keeps_osEventFlagsDelete _).bind
      intro joiner
      apply Respects.returnOr
      apply (keeps_osEventFlagsDelete _).bind
      intro flags
      apply Respects.returnOr
      apply (keeps_store _ _).bind
      exact fun _ => keeps_releaseDynamic.bind fun _ => .pure _

theorem keeps_osThreadReap (isThread : object.resourceId = .osResourceThread) (given : Unit) :
    Keeps exempt (some (.resource .osResourceThread)) (osThreadReap object given) := by
  apply (keeps_valid _).bind
  intro valid
  apply Respects.returnOr
  apply (keeps_load _).bind
  intro attrBits
  apply Respects.ite
  · intro _
    apply (keeps_listRemove (Or.inr (by rw [homeList, isThread]))).bind
    exact fun _ => (keeps_ask _).bind fun _ => .pure _
  · exact fun _ => .pure _

theorem keeps_reapThread (times rounds : Nat) : Keeps exempt none (reapThread context times rounds) := by
  apply (keeps_ask _).bind
  intro thread
  apply Respects.returnOr
  apply (keeps_osReleaseRobustMutex _ _ _).bind
  intro released
  cases released with
  | none => exact .pure _
  | some released =>
      apply Respects.returnOr
      apply (keeps_osEventFlagsDelete _).bind
      intro joiner
      apply Respects.returnOr
      apply (keeps_osEventFlagsDelete _).bind
      intro flags
      apply Respects.returnOr
      apply (keeps_store _ _).bind
      exact fun _ => keeps_releaseDynamic.bind fun _ => .pure _

theorem keeps_reapThreads (times rounds : Nat) : Keeps exempt none (reapThreads context times rounds) := by
  apply (keeps_forEach (fun _ given isThread => keeps_osThreadReap isThread given) ()).bind
  intro (status, given)
  apply Respects.returnOr
  apply (keeps_ask _).bind
  intro isEmpty
  apply Respects.returnOr
  exact ((keeps_reapThread _ _).repeatWhile _).bind fun _ => .pure _

theorem keeps_osThreadReaper (times rounds : Nat) :
    Keeps exempt none (osThreadReaper context times rounds) := by
  apply Respects.repeatWhile
  apply (keeps_ask _).bind
  intro flags
  apply Respects.returnOr
  apply Respects.ite
  · exact fun _ => ((keeps_reapThreads _ _).repeatWhile _).bind fun _ => .pure _
  · exact fun _ => .pure _

theorem keeps_osThreadGetCount : Keeps exempt none (osThreadGetCount context) := by
  apply Respects.returnOr
  refine Respects.bind (keeps_forEach (fun object count _ => ?_) _) fun (status, count) => .pure _
  cases object with
  | thread thread => exact (keeps_getStateIsError _).bind fun _ => .pure _
  | _ => exact .pure _

theorem keeps_osThreadEnumerate (arrayItems : Nat) :
    Keeps exempt none (osThreadEnumerate context arrayItems) := by
  apply Respects.returnOr
  refine Respects.bind (keeps_forEach (fun object capture _ => ?_) _) fun (status, capture) => .pure _
  cases object with
  | thread thread =>
      apply Respects.returnOr
      exact (keeps_getStateIsError _).bind fun _ => .pure _
  | _ => exact .pure _

end Threads

section Timers

theorem keeps_timerStatus (timer : Word) : Keeps exempt held (timerStatus context timer) :=
  .returnOr (keeps_valid _)

theorem keeps_timerThreadInit : Keeps exempt none (timerThreadInit context) := by
  apply (keeps_ask _).bind
  intro first
  apply Respects.returnOr
  apply (keeps_osMessageQueueNew _ _).bind
  intro queue
  cases queue with
  | none => exact .pure _
  | some queue => exact (keeps_osThreadNew _ _ _).bind fun _ => .pure _

theorem keeps_insertTimer (timer target : Word) (nodes : List ObjectNode)
    (isHeld : exempt (.insert .activeTimers (.active timer)) = true ∨ held = some .activeTimers) :
    Keeps exempt held (insertTimer timer target nodes) := by
  induction nodes with
  | nil => exact keeps_listAdd rfl isHeld
  | cons node rest ih =>
      cases node with
      | resource object => exact ih
      | active current =>
          apply (keeps_load _).bind
          intro other
          exact .ite (fun _ => keeps_listAdd rfl isHeld) fun _ => ih

theorem keeps_osTimerStart (timer ticks : Word) :
    Keeps exempt none (osTimerStart context timer ticks) := by
  apply Respects.returnOr
  apply (keeps_timerStatus _).bind
  intro status
  apply Respects.returnOr
  apply keeps_timerThreadInit.bind
  intro _
  apply (keeps_ask _).bind
  intro now
  apply (keeps_store _ _).bind
  intro _
  apply (keeps_store _ _).bind
  intro _
  apply Respects.lock rfl
  apply Respects.traverse (Or.inr rfl)
  intro nodes _
  apply (keeps_insertTimer _ _ _ (Or.inr rfl)).bind
  intro _
  exact .unlock rfl (.pure _)

theorem keeps_osTimerStop (timer : Word) (spared : exempt (.isLinked (.active timer)) = true) :
    Keeps exempt none (osTimerStop context timer) := by
  apply (keeps_timerStatus _).bind
  intro status
  apply Respects.returnOr
  apply (keeps_listIsLinked (Or.inl spared)).bind
  intro linked
  apply Respects.returnOr
  apply Respects.lock rfl
  refine Respects.bind (keeps_listRemove (Or.inr rfl)) fun _ => ?_
  exact .unlock rfl (.pure _)

theorem keeps_osTimerIsRunning (timer : Word) (spared : exempt (.isLinked (.active timer)) = true) :
    Keeps exempt none (osTimerIsRunning context timer) := by
  apply (keeps_timerStatus _).bind
  intro status
  exact .returnOr (keeps_listIsLinked (Or.inl spared))

theorem keeps_osTimerDelete (timer : Word)
    (spared : exempt (.remove (.resource (.timer timer))) = true) :
    Keeps exempt none (osTimerDelete context timer) := by
  have rest : Keeps exempt none (do
      store (.timer timer) .marker 0
      let removed ← osKernelResourceRemove context .osResourceEventFlags (.timer timer)
      if removed ≠ .osOK then return removed
      releaseDynamic (.timer timer)
      return .osOK) := by
    apply (keeps_store _ _).bind
    intro _
    apply (keeps_remove (Or.inl spared)).bind
    intro removed
    exact .returnOr (keeps_releaseDynamic.bind fun _ => .pure _)
  apply (keeps_timerStatus _).bind
  intro status
  apply Respects.returnOr
  apply Respects.lock rfl
  refine Respects.bind (keeps_listIsLinked (Or.inr rfl)) fun linked => ?_
  apply Respects.ite
  · intro _
    refine Respects.bind (keeps_listRemove (Or.inr rfl)) fun _ => ?_
    exact .unlock rfl rest
  · exact fun _ => .unlock rfl rest

/-- The tick hook inserts into the list of active timers alone, which is all that it keeps to. -/
theorem keeps_schedulerTickHook (spared : ∀ op, exempt op = true) (core : Nat) (ticks : Word)
    (passes : Nat) : Keeps exempt none (schedulerTickHook core ticks passes) := by
  apply Respects.returnOr
  apply Respects.repeatWhile
  apply Respects.traverse (Or.inl (spared _))
  intro first _
  cases first with
  | nil => exact .pure _
  | cons node rest =>
      cases node with
      | resource object => exact .pure _
      | active expired =>
          apply (keeps_load _).bind
          intro target
          apply Respects.returnOr
          apply (keeps_listRemove (Or.inl (spared _))).bind
          intro _
          apply (keeps_ask _).bind
          intro status
          apply Respects.returnOr
          apply (keeps_load _).bind
          intro type
          apply Respects.ite
          · intro _
            apply (keeps_load _).bind
            intro period
            apply (keeps_store _ _).bind
            intro _
            apply Respects.traverse (Or.inl (spared _))
            intro nodes _
            exact (keeps_insertTimer _ _ _ (Or.inl (spared _))).bind fun _ => .pure _
          · exact fun _ => .pure _

end Timers

theorem keeps_forget {code : RtosCode Result} (keeps : Keeps exempt none code) :
    Keeps exempt none (forget code) := keeps.bind fun _ => .pure _

end Codes

theorem keeps_code (core : Nat) (entry : Context × ObjectCall) :
    Keeps (unlockedOps entry) none (entry.2.code core entry.1) := by
  obtain ⟨context, call⟩ := entry
  cases call with
  | osThreadNew func priority attr => exact keeps_forget (keeps_osThreadNew _ _ _)
  | osMutexNew attr => exact keeps_forget (keeps_osMutexNew _)
  | osSemaphoreNew attr => exact keeps_forget (keeps_osSemaphoreNew _)
  | osEventFlagsNew attr => exact keeps_forget (keeps_osEventFlagsNew _)
  | osTimerNew func type attr => exact keeps_forget (keeps_osTimerNew _ _ _)
  | osMemoryPoolNew blockSize attr => exact keeps_forget (keeps_osMemoryPoolNew _ _)
  | osMessageQueueNew msgSize attr => exact keeps_forget (keeps_osMessageQueueNew _ _)
  | osDequeNew elementSize attr => exact keeps_forget (keeps_osDequeNew _ _)
  | osThreadJoin times rounds thread => exact keeps_forget (keeps_osThreadJoin _ _ _)
  | osMutexDelete mutex => exact keeps_forget (keeps_osMutexDelete _)
  | osSemaphoreDelete semaphore => exact keeps_forget (keeps_osSemaphoreDelete _)
  | osEventFlagsDelete eventflags => exact keeps_forget (keeps_osEventFlagsDelete _)
  | osTimerDelete timer => exact keeps_forget (keeps_osTimerDelete _ rfl)
  | osMemoryPoolDelete pool => exact keeps_forget (keeps_osMemoryPoolDelete _)
  | osMessageQueueDelete queue => exact keeps_forget (keeps_osMessageQueueDelete _)
  | osDequeDelete deque => exact keeps_forget (keeps_osDequeDelete _)
  | osThreadReaper times rounds => exact keeps_osThreadReaper _ _
  | osThreadGetCount => exact keeps_forget keeps_osThreadGetCount
  | osThreadEnumerate arrayItems => exact keeps_forget (keeps_osThreadEnumerate _)
  | osKernelResourceDump id => exact keeps_forget keeps_dump
  | osTimerStart timer ticks => exact keeps_forget (keeps_osTimerStart _ _)
  | osTimerStop timer => exact keeps_forget (keeps_osTimerStop _ rfl)
  | osTimerIsRunning timer => exact keeps_forget (keeps_osTimerIsRunning _ rfl)
  | schedulerTickHook ticks passes => exact keeps_schedulerTickHook (fun _ => rfl) _ _ _

/-- In runs in which the tick hook does not run on the first core, no active timer is checked without the
lock, and no timer is deleted that is in the list of all timers, each access to a list is made while its lock
is held by the core. -/
theorem locked_of_guarded {cores : Nat}
    {state : Locking.State (Fin cores) ListId ObjectNode ObjectEffect Word (Context × ObjectCall)}
    (reached : (objectCalls cores).system.Guarded (Spared unlockedOps) state) :
    ∀ access ∈ state.accesses, access.locked = true :=
  (disciplined_of_guarded (fun core entry => keeps_code core.val entry) reached).locked

/-- A call of a thread on the second core, and its operations with what each of them reads. -/
def madeCall (index : Nat) (call : ObjectCall) (values : List Word) :
    List (Locking.Action (Fin 2) ObjectNode Word (Context × ObjectCall)) :=
  .call 1 (.thread, call) :: values.map fun value => .act index value []

theorem locked_of_guarded_semaphore :
    ∃ state : Locking.State (Fin 2) ListId ObjectNode ObjectEffect Word (Context × ObjectCall),
      (∀ access ∈ state.accesses, access.locked = true) ∧ state.accesses.length = 3 := by
  obtain ⟨state, reached, length⟩ := @System.exists_of_run _ _ (objectCalls 2).system
    (Spared unlockedOps) _ _ rfl
    (madeCall 0 (.osSemaphoreNew ⟨0, none, false, true⟩) [0x2000, 0, 0, 0, 0, 0] ++
      madeCall 1 (.osTimerNew 1 .osTimerOnce ⟨0, none, false, true⟩) [0x3000, 0, 0, 0, 0, 0, 0] ++
      madeCall 2 (.osTimerStop 0x3000) [rtosTimerMarker, 0] ++
      madeCall 3 (.osSemaphoreDelete (.own 0x2000)) [rtosSemaphoreMarker, 0, 0, 0, 0, osDynamicAlloc, 0])
    (fun state => state.accesses.length = 3) _ (by decide)
  exact ⟨state, locked_of_guarded reached, length⟩

theorem not_locked :
    ¬∀ state : Locking.State (Fin 2) ListId ObjectNode ObjectEffect Word (Context × ObjectCall),
      (objectCalls 2).system.Reachable state → ∀ access ∈ state.accesses, access.locked = true := by
  intro all
  obtain ⟨state, reached, found⟩ := @System.exists_of_run _ _ (objectCalls 2).system
    (fun _ _ => True) _ _ rfl
    (madeCall 0 (.osTimerNew 1 .osTimerOnce ⟨0, none, false, true⟩) [0x3000, 0, 0, 0, 0, 0, 0] ++
      madeCall 1 (.osTimerDelete 0x3000) [rtosTimerMarker, 0, 0, 0, 0, 0, 0, 0, osDynamicAlloc, 0] ++
      [.call 0 (.handler, .schedulerTickHook 1 1), .act 2 0 []])
    (fun state => (⟨1, .resource .osResourceTimer, false⟩ : Access (Fin 2) ListId) ∈ state.accesses ∧
      (⟨0, .activeTimers, false⟩ : Access (Fin 2) ListId) ∈ state.accesses) _ (by decide)
  cases all state reached _ found.1

end PicoToolkit.Objects
