import PicoToolkit.Cmsis.Teardown

/-!
Runs of any number of calls that create and delete objects: whether a deletion that fails can be repeated.
-/

namespace PicoToolkit.Objects

open Locking Transition

structure UseCall where
  use : ObjectUse
  context : Context
  begun : ObjectStore
  code : RtosCode (Option Word)

structure UseReturn where
  use : ObjectUse
  context : Context
  begun : ObjectStore
  ended : ObjectStore
  status : Word

structure Deletions where
  store : ObjectStore
  calls : List UseCall := []
  returned : List UseReturn := []

/-- The begin of a call, its next operation with what it may find out, and its return. -/
inductive DeletionAction where
  | call (context : Context) (use : ObjectUse)
  | act (index : Nat) (value : Word) (found : List ObjectNode)
  | finish (index : Nat)

def RtosObject.foreign : RtosObject → Bool
  | .mutex _ | .timer _ | .semaphore (.own _) => true
  | _ => false

def ObjectNode.foreign : ObjectNode → Bool
  | .resource object => object.foreign
  | .active _ => true

def ObjectNode.list : ObjectNode → ListId
  | .resource object => .resource object.resourceId
  | .active _ => .activeTimers

/-- What an operation finds out.  The waiters and all but one of the attribute bits change otherwise too, and
the address that the allocator returns is that of the call. -/
def ObjectStore.reply (store : ObjectStore) (owner : RtosObject) (value : Word)
    (found : List ObjectNode) : (op : RtosOp) → Option (op.Answer Word)
  | .lock _ | .unlock _ | .insert _ _ | .remove _ => some ()
  | .isLinked node => some (decide (node ∈ store.lists node.list))
  | .traverse list =>
      if found.filter (fun node => !node.foreign) = store.lists list then some found else none
  | .perform (.load object .marker) =>
      if object.foreign ∨ value = store.memory object .marker then some value else none
  | .perform (.load object .attrBits) =>
      if object.foreign ∨ (value &&& osDynamicAlloc ≠ 0 ↔ store.allocated object) then some value
      else none
  | .perform (.ask .allocate) => if value = 0 ∨ value = owner.address then some value else none
  | .perform _ => some value

namespace Deletions

def step (state : Deletions) : DeletionAction → Option Deletions
  | .call context use => some { state with
      calls := state.calls ++ [⟨use, context, state.store, use.code context⟩] }
  | .act index value found =>
      state.calls[index]?.bind fun call =>
        match call.code with
        | .done _ => none
        | .step op next =>
            (state.store.reply call.use.object value found op).map fun answer =>
              { state with
                store := state.store.after op
                calls := state.calls.set index { call with code := next answer } }
  | .finish index =>
      state.calls[index]?.bind fun call =>
        match call.code with
        | .done none => some { state with calls := state.calls.eraseIdx index }
        | .done (some status) => some { state with
            calls := state.calls.eraseIdx index
            returned := ⟨call.use, call.context, call.begun, state.store, status⟩ :: state.returned }
        | .step _ _ => none

end Deletions

abbrev deletionSystem : System Deletions DeletionAction where
  initial state := (∀ object, ¬state.store.valid object) ∧ state.calls = [] ∧ state.returned = []
  step := Deletions.step

/-- Every deletion that has accepted its argument and returned an error can be repeated, and every one that
has returned success has done all of its work. -/
def FailuresRecoverable (state : Deletions) : Prop :=
  ∀ done ∈ state.returned, done.use.Accepts done.context done.begun →
    Recoverable done.use.object done.begun done.ended done.status

/-- Nobody waits for event flags in another control block when they are deleted, and a robust mutex is
released without error. -/
def Harmless (value : Word) : RtosOp → Prop
  | .perform (.load object .waiters) => object.embedded → ¬0 < value.toInt
  | .perform (.ask (.mutexRobustRelease _ _)) => value = OsStatus.osOK.code
  | _ => True

instance (value : Word) (op : RtosOp) : Decidable (Harmless value op) := by
  unfold Harmless
  split
  · infer_instance
  · infer_instance
  · infer_instance

instance (store : ObjectStore) (use : ObjectUse) : Decidable (use.Ready store) := by
  unfold ObjectUse.Ready
  split
  · infer_instance
  · infer_instance
  · infer_instance

/-- One call at a time creates or deletes an object, and what it finds out does it no harm. -/
def Undisturbed (state : Deletions) : DeletionAction → Prop
  | .call _ use => use.Ready state.store ∧ ∀ call ∈ state.calls, call.use.object ≠ use.object
  | .act index value _ => ∀ call ∈ state.calls[index]?, ∀ op ∈ call.code.next, Harmless value op
  | .finish _ => True

instance (state : Deletions) (action : DeletionAction) : Decidable (Undisturbed state action) :=
  match action with
  | .call _ use => inferInstanceAs (Decidable (use.Ready state.store ∧
      ∀ call ∈ state.calls, call.use.object ≠ use.object))
  | .act index value _ => inferInstanceAs (Decidable
      (∀ call ∈ state.calls[index]?, ∀ op ∈ call.code.next, Harmless value op))
  | .finish _ => isTrue trivial

instance (context : Context) (store : ObjectStore) (use : ObjectUse) :
    Decidable (use.Accepts context store) := by
  unfold ObjectUse.Accepts
  cases use with
  | _ => infer_instance

instance (object : RtosObject) (begun ended : ObjectStore) (status : Word) :
    Decidable (Recoverable object begun ended status) := by
  unfold Recoverable
  infer_instance

/-- What a step preserves: the calls are about different objects, each goes on to leave its object as it
should, and the other objects are settled. -/
structure Orderly (state : Deletions) : Prop where
  apart : (state.calls.map fun call => call.use.object).Nodup
  calls : ∀ call ∈ state.calls,
    Makes call.use.object (call.use.Leaves call.context call.begun) call.code state.store
  idle : ∀ use : ObjectUse, (∀ call ∈ state.calls, call.use.object ≠ use.object) →
    Settled state.store use.object
  recoverable : FailuresRecoverable state

section Steps

variable {state next : Deletions} {call other : UseCall} {index : Nat}

theorem Orderly.ne_of_mem_eraseIdx (orderly : Orderly state) (found : state.calls[index]? = some call)
    (member : other ∈ state.calls.eraseIdx index) : call.use.object ≠ other.use.object := by
  obtain ⟨position, different, isThere⟩ := List.mem_eraseIdx_iff_getElem?.mp member
  intro same
  have inside : index < (state.calls.map fun call => call.use.object).length := by
    rw [List.length_map]
    exact (List.getElem?_eq_some_iff.mp found).1
  refine different ((List.getElem?_inj inside orderly.apart).mp ?_).symm
  rw [List.getElem?_map, List.getElem?_map, found, isThere, Option.map_some, Option.map_some, same]

theorem native_of_whole {object : RtosObject} {use : ObjectUse} (own : object.whole = use.object) :
    object.foreign = false := by
  cases object with
  | mutex id | timer address =>
      cases use with
      | _ => cases own
  | semaphore id =>
      cases id with
      | own address =>
          cases use with
          | _ => cases own
      | _ => rfl
  | _ => rfl

theorem learns_of_reply {store : ObjectStore} {use : ObjectUse} {value : Word}
    {found : List ObjectNode} {op : RtosOp} {answer : op.Answer Word} (harmless : Harmless value op)
    (replies : store.reply use.object value found op = some answer) :
    Learns use.object store op answer := by
  cases op with
  | lock list | unlock list | insert list node | remove node | isLinked node => trivial
  | traverse list =>
      intro object own
      simp only [ObjectStore.reply] at replies
      obtain ⟨same, isFound⟩ := Option.ite_none_right_eq_some.mp replies
      obtain rfl := Option.some_inj.mp isFound
      rw [← same, List.mem_filter]
      have native : object.foreign = false := native_of_whole own
      simp [ObjectNode.foreign, native]
  | perform effect =>
      cases effect with
      | store object field stored | release object => trivial
      | load object field =>
          cases field with
          | marker =>
              simp only [ObjectStore.reply] at replies
              obtain ⟨finds, isValue⟩ := Option.ite_none_right_eq_some.mp replies
              obtain rfl := Option.some_inj.mp isValue
              refine ⟨fun own _ => finds.resolve_left ?_, nofun, fun _ => nofun⟩
              rw [native_of_whole own]
              exact Bool.false_ne_true
          | attrBits =>
              simp only [ObjectStore.reply] at replies
              obtain ⟨finds, isValue⟩ := Option.ite_none_right_eq_some.mp replies
              obtain rfl := Option.some_inj.mp isValue
              refine ⟨nofun, fun own _ => finds.resolve_left ?_, fun _ => nofun⟩
              rw [native_of_whole own]
              exact Bool.false_ne_true
          | waiters =>
              obtain rfl := Option.some_inj.mp replies
              exact ⟨nofun, nofun, fun embedded _ => harmless embedded⟩
          | type | ticks | target => exact ⟨nofun, nofun, fun _ => nofun⟩
      | ask request =>
          cases request with
          | allocate =>
              simp only [ObjectStore.reply] at replies
              obtain ⟨finds, isValue⟩ := Option.ite_none_right_eq_some.mp replies
              obtain rfl := Option.some_inj.mp isValue
              exact finds
          | mutexRobustRelease mutex thread =>
              obtain rfl := Option.some_inj.mp replies
              exact harmless
          | _ => trivial

theorem Orderly.act {value : Word} {found : List ObjectNode} (orderly : Orderly state)
    (isCall : state.calls[index]? = some call) {op : RtosOp} {rest : op.Answer Word → RtosCode (Option Word)}
    (isNext : call.code = .step op rest) {answer : op.Answer Word} (harmless : Harmless value op)
    (replies : state.store.reply call.use.object value found op = some answer) :
    Orderly { state with
      store := state.store.after op
      calls := state.calls.set index { call with code := rest answer } } := by
  have makes := orderly.calls call (List.mem_of_getElem? isCall)
  rw [isNext] at makes
  obtain ⟨within, continues⟩ := makes
  have inside : index < (state.calls.map fun call => call.use.object).length := by
    rw [List.length_map]
    exact (List.getElem?_eq_some_iff.mp isCall).1
  have objects : ((state.calls.set index { call with code := rest answer }).map
      fun call => call.use.object) = state.calls.map fun call => call.use.object := by
    have same : call.use.object = (state.calls.map fun call => call.use.object)[index] := by
      obtain ⟨_, isThere⟩ := List.getElem?_eq_some_iff.mp isCall
      simp [isThere]
    rw [List.map_set]
    simp only
    rw [same, List.set_getElem_self]
  refine ⟨?_, fun other member => ?_, fun use away => ?_, orderly.recoverable⟩
  · rw [objects]
    exact orderly.apart
  · rcases Interleaving.mem_set_or member with rfl | member
    · exact continues answer (learns_of_reply harmless replies)
    · exact (orderly.calls other (List.mem_of_mem_eraseIdx member)).frame ObjectUse.stable_leaves within
        (orderly.ne_of_mem_eraseIdx isCall member)
  · have different : call.use.object ≠ use.object := by
      have isObject : call.use.object ∈ state.calls.map fun call => call.use.object :=
        List.mem_map_of_mem (List.mem_of_getElem? isCall)
      rw [← objects] at isObject
      obtain ⟨moved, isMoved, same⟩ := List.mem_map.mp isObject
      rw [← same]
      exact away moved isMoved
    refine (orderly.idle use fun other member => ?_).same (sameFor_after within different)
    have isObject : other.use.object ∈ state.calls.map fun call => call.use.object :=
      List.mem_map_of_mem member
    rw [← objects] at isObject
    obtain ⟨moved, isMoved, same⟩ := List.mem_map.mp isObject
    rw [← same]
    exact away moved isMoved

theorem Orderly.finish {status : Option Word} (orderly : Orderly state)
    (isCall : state.calls[index]? = some call) (isDone : call.code = .done status) :
    Orderly { state with
      calls := state.calls.eraseIdx index
      returned := (status.map fun code =>
        ⟨call.use, call.context, call.begun, state.store, code⟩).toList ++ state.returned } := by
  have leaves := orderly.calls call (List.mem_of_getElem? isCall)
  rw [isDone] at leaves
  obtain ⟨settled, ends⟩ := leaves
  refine ⟨?_, fun other member => orderly.calls other (List.mem_of_mem_eraseIdx member), ?_, ?_⟩
  · exact orderly.apart.sublist ((List.eraseIdx_sublist ..).map _)
  · intro use away
    by_cases same : call.use.object = use.object
    · exact same ▸ settled
    · refine orderly.idle use fun other member => ?_
      obtain ⟨position, isThere⟩ := List.mem_iff_getElem?.mp member
      by_cases here : position = index
      · rw [here, isCall] at isThere
        obtain rfl := Option.some_inj.mp isThere
        exact same
      · exact away other (List.mem_eraseIdx_iff_getElem?.mpr ⟨position, here, isThere⟩)
  · intro done member accepts
    rcases List.mem_append.mp member with new | before
    · cases status with
      | none => cases new
      | some code =>
          obtain rfl := List.mem_singleton.mp new
          exact ends code rfl accepts
    · exact orderly.recoverable done before accepts

theorem Orderly.begin {context : Context} {use : ObjectUse} (orderly : Orderly state)
    (ready : use.Ready state.store) (alone : ∀ call ∈ state.calls, call.use.object ≠ use.object) :
    Orderly { state with
      calls := state.calls ++ [⟨use, context, state.store, use.code context⟩] } := by
  refine ⟨?_, fun call member => ?_, fun other away => ?_, orderly.recoverable⟩
  · rw [List.map_append, List.nodup_append]
    refine ⟨orderly.apart, List.nodup_singleton _, ?_⟩
    rintro object isObject other isOther same
    obtain ⟨call, member, rfl⟩ := List.mem_map.mp isObject
    obtain rfl := List.mem_singleton.mp isOther
    exact alone call member same
  · rcases List.mem_append.mp member with before | new
    · exact orderly.calls call before
    · obtain rfl := List.mem_singleton.mp new
      exact makes_code ready (orderly.idle use alone)
  · exact orderly.idle other fun call member => away call (List.mem_append_left _ member)

theorem Orderly.step {action : DeletionAction} (orderly : Orderly state)
    (undisturbed : Undisturbed state action) (moved : state.step action = some next) : Orderly next := by
  cases action with
  | call context use =>
      obtain rfl := Option.some_inj.mp moved
      exact orderly.begin undisturbed.1 undisturbed.2
  | act index value found =>
      obtain ⟨call, isCall, moved⟩ := Option.bind_eq_some_iff.mp moved
      cases isNext : call.code with
      | done status =>
          rw [isNext] at moved
          cases moved
      | step op rest =>
          rw [isNext] at moved
          obtain ⟨answer, replies, rfl⟩ := Option.map_eq_some_iff.mp moved
          refine orderly.act isCall isNext (undisturbed call isCall op ?_) replies
          rw [isNext, Code.next]
          rfl
  | finish index =>
      obtain ⟨call, isCall, moved⟩ := Option.bind_eq_some_iff.mp moved
      cases isNext : call.code with
      | done status =>
          have finished := orderly.finish isCall isNext
          rw [isNext] at moved
          cases status with
          | _ =>
              obtain rfl := Option.some_inj.mp moved
              exact finished
      | step op rest =>
          rw [isNext] at moved
          cases moved

end Steps

theorem orderly_of_initial {state : Deletions} (begins : deletionSystem.initial state) :
    Orderly state := by
  obtain ⟨none_, calls, returned⟩ := begins
  refine ⟨?_, ?_, ?_, ?_⟩
  · rw [calls]
    exact List.nodup_nil
  · rw [calls]
    exact List.forall_mem_nil _
  · exact fun use _ => settled_of_invalid (none_ use.object)
  · rw [FailuresRecoverable, returned]
    exact List.forall_mem_nil _

def noObjects : Deletions where
  store := { memory := fun _ _ => 0, lists := fun _ => [], released := [] }

theorem initial_noObjects : deletionSystem.initial noObjects := by
  refine ⟨fun object => ?_, rfl, rfl⟩
  rw [ObjectStore.valid]
  exact osIsResourceValid_zero object

def staticMemory : GivenAttr where
  attrBits := 0
  static := true
  dataMem := true
  fits := true

/-- A deque is made, and deleted at once, when its event flags have the given number of waiters. -/
def dequeDeletion (waiters : Word) : List DeletionAction :=
  [DeletionAction.call .thread (.osDequeNew 0x100 4 staticMemory)] ++
    List.replicate 10 (DeletionAction.act 0 0 []) ++
    [DeletionAction.finish 0, .call .thread (.osDequeDelete 0x100), .act 0 rtosDequeMarker []] ++
    List.replicate 4 (DeletionAction.act 0 0 []) ++
    [DeletionAction.act 0 rtosEventflagsMarker [], .act 0 waiters []]

def deleteEventFlags (waiters : Word) : List DeletionAction :=
  [.call .thread (.osEventFlagsDelete 0x300), .act 0 rtosEventflagsMarker [], .act 0 waiters []]

/-- Event flags are made, cannot be deleted while somebody waits for them, and can be later. -/
def eventFlagsDeletions : List DeletionAction :=
  List.flatten [[DeletionAction.call .thread (.osEventFlagsNew 0x300 staticMemory)],
    List.replicate 6 (.act 0 0 []), [.finish 0], deleteEventFlags 1, [.finish 0], deleteEventFlags 0,
    List.replicate 4 (.act 0 0 []), [.finish 0]]

end PicoToolkit.Objects
