import PicoToolkit.Cmsis.ObjectStore

/-!
Whether an object whose deletion fails is still there.
-/

namespace PicoToolkit.Objects

open Locking Transition

structure GivenAttr where
  attrBits : Word
  static : Bool
  dataMem : Bool
  fits : Bool

def GivenAttr.attr {Place : Type} (given : GivenAttr) (place : Place) : ObjectAttr Place where
  attrBits := given.attrBits
  cbMem := if given.static then some place else none
  dataMem := given.dataMem
  fits := given.fits

/-- A constructor or a destructor, with the address of the object; that of allocated memory is the one that
the allocator is going to return. -/
inductive ObjectUse where
  | osThreadNew (thread func : Word) (priority : Int) (given : GivenAttr)
  | osMessageQueueNew (queue msgSize : Word) (given : GivenAttr)
  | osMemoryPoolNew (pool blockSize : Word) (given : GivenAttr)
  | osDequeNew (deque elementSize : Word) (given : GivenAttr)
  | osEventFlagsNew (eventflags : Word) (given : GivenAttr)
  | osThreadJoin (times rounds : Nat) (thread : Word)
  | osMessageQueueDelete (queue : Word)
  | osMemoryPoolDelete (pool : Word)
  | osDequeDelete (deque : Word)
  | osEventFlagsDelete (eventflags : Word)

namespace ObjectUse

def object : ObjectUse → RtosObject
  | .osThreadNew thread _ _ _ | .osThreadJoin _ _ thread => .thread thread
  | .osMessageQueueNew queue _ _ | .osMessageQueueDelete queue => .messageQueue queue
  | .osMemoryPoolNew pool _ _ | .osMemoryPoolDelete pool => .memoryPool (.own pool)
  | .osDequeNew deque _ _ | .osDequeDelete deque => .deque deque
  | .osEventFlagsNew eventflags _ | .osEventFlagsDelete eventflags => .eventFlags (.own eventflags)

def constructs {Id : Type} (code : RtosCode (Option Id)) : RtosCode (Option Word) := do
  let _ ← code
  return none

def deletes (code : RtosCode OsStatus) : RtosCode (Option Word) := do
  let status ← code
  return some status.code

def code (context : Context) : ObjectUse → RtosCode (Option Word)
  | .osThreadNew thread func priority given =>
      constructs (Objects.osThreadNew context func priority (given.attr thread))
  | .osMessageQueueNew queue msgSize given =>
      constructs (Objects.osMessageQueueNew context msgSize (given.attr queue))
  | .osMemoryPoolNew pool blockSize given =>
      constructs (Objects.osMemoryPoolNew context blockSize (given.attr (.own pool)))
  | .osDequeNew deque elementSize given =>
      constructs (Objects.osDequeNew context elementSize (given.attr deque))
  | .osEventFlagsNew eventflags given =>
      constructs (Objects.osEventFlagsNew context (given.attr (.own eventflags)))
  | .osThreadJoin times rounds thread => Objects.osThreadJoin context times rounds thread
  | .osMessageQueueDelete queue => deletes (Objects.osMessageQueueDelete context queue)
  | .osMemoryPoolDelete pool => deletes (Objects.osMemoryPoolDelete context (.own pool))
  | .osDequeDelete deque => deletes (Objects.osDequeDelete context deque)
  | .osEventFlagsDelete eventflags => deletes (Objects.osEventFlagsDelete context (.own eventflags))

/-- The argument is accepted: in a thread, a valid object, and a thread that is known to the kernel. -/
def Accepts (context : Context) (store : ObjectStore) (use : ObjectUse) : Prop :=
  context = .thread ∧ store.valid use.object ∧ match use with
    | .osThreadJoin _ _ thread => store.registered (.thread thread)
    | _ => True

end ObjectUse

/-- After an error the object and its parts are valid, in their lists and not released; after success they
are in no list, and the memory has been released once if it is allocated. -/
def Recoverable (object : RtosObject) (begun ended : ObjectStore) (status : Word) : Prop :=
  if status = OsStatus.osOK.code then
    ∀ part ∈ object :: object.parts, ¬ended.registered part ∧
      ended.released.count part =
        begun.released.count part + if part = object ∧ begun.allocated object then 1 else 0
  else
    ∀ part ∈ object :: object.parts, ended.valid part ∧ ended.registered part ∧
      ended.released.count part = begun.released.count part

def RtosObject.clearsMarker : RtosObject → Bool
  | .memoryPool _ | .messageQueue _ | .deque _ => true
  | _ => false

def RtosObject.hasBits : RtosObject → Bool
  | .memoryPool _ => false
  | _ => true

structure Settled (store : ObjectStore) (object : RtosObject) : Prop where
  registered : object.clearsMarker → store.valid object → store.registered object
  parts : store.valid object → store.registered object → ∀ part ∈ object.parts,
    store.valid part ∧ store.registered part ∧ (part.hasBits → ¬store.allocated part)

section Uses

variable {store begun : ObjectStore} {context : Context} {use : ObjectUse}

def ObjectUse.Leaves (context : Context) (begun : ObjectStore) (use : ObjectUse) (status : Option Word)
    (ended : ObjectStore) : Prop :=
  Settled ended use.object ∧ ∀ code ∈ status, use.Accepts context begun →
    Recoverable use.object begun ended code

/-- What must be the case when a call begins: event flags are not deleted twice, and the bits of the pool in
a message queue are not taken for those of allocated memory. -/
def ObjectUse.Ready (store : ObjectStore) : ObjectUse → Prop
  | .osEventFlagsDelete eventflags =>
      store.valid (.eventFlags (.own eventflags)) → store.registered (.eventFlags (.own eventflags))
  | .osMessageQueueDelete queue =>
      store.valid (.messageQueue queue) → ¬store.allocated (.memoryPool (.messagePool queue))
  | _ => True

@[simp]
theorem osIsResourceValid_self (marker : Word) : PicoToolkit.osIsResourceValid marker marker = .osOK :=
  if_pos (Or.inl rfl)

theorem GivenAttr.isFor {Place : Type} (given : GivenAttr) (place : Place) :
    (given.attr place).IsFor place := by
  rw [ObjectAttr.IsFor, GivenAttr.attr]
  cases given.static with
  | true => exact Or.inl rfl
  | false => exact Or.inr rfl

theorem makes_deletes {owner : RtosObject} {code : RtosCode OsStatus}
    {post : Option Word → ObjectStore → Prop}
    (makes : Makes owner (fun status ended => post (some status.code) ended) code store) :
    Makes owner post (ObjectUse.deletes code) store :=
  .bind (makes.mono fun _ _ holds => .pure holds)

theorem makes_constructs {owner : RtosObject} {Id : Type} {code : RtosCode (Option Id)}
    {post : Option Word → ObjectStore → Prop}
    (makes : Makes owner (fun _ ended => post none ended) code store) :
    Makes owner post (ObjectUse.constructs code) store :=
  .bind (makes.mono fun _ _ holds => .pure holds)

theorem leaves_refused {status : Word} (settled : Settled store use.object)
    (refused : ¬use.Accepts context store) : use.Leaves context store (some status) store :=
  ⟨settled, fun _ _ accepts => absurd accepts refused⟩

@[simp]
theorem osIsResourceValid_marker (object : RtosObject) :
    PicoToolkit.osIsResourceValid object.marker object.marker = .osOK :=
  osIsResourceValid_self _

theorem settled_of_invalid {object : RtosObject} (invalid : ¬store.valid object) :
    Settled store object :=
  ⟨fun _ valid => absurd valid invalid, fun valid => absurd valid invalid⟩

theorem makes_osDequeDelete (deque : Word) (settled : Settled store (.deque deque)) :
    Makes (.deque deque) ((ObjectUse.osDequeDelete deque).Leaves .thread store)
      ((ObjectUse.osDequeDelete deque).code .thread) store := by
  apply makes_deletes
  apply makes_destroy rfl
  · exact fun status invalid _ => leaves_refused settled fun accepts => invalid accepts.2.1
  · intro valid
    obtain ⟨partValid, partRegistered, notAllocated⟩ :=
      settled.parts valid (settled.registered rfl valid) _ List.mem_cons_self
    apply makes_osEventFlagsDelete rfl
    · intro status invalid _
      simp [partValid] at invalid
    · exact fun _ notEmbedded => nomatch notEmbedded
    · intro _
      rw [if_pos rfl]
      refine ⟨settled_of_invalid (by simp [ObjectUse.object]), fun code isIt accepts => ?_⟩
      cases isIt
      simp [Recoverable, ObjectUse.object, RtosObject.parts, notAllocated rfl]

theorem makes_osEventFlagsDeleteOwn (eventflags : Word)
    (ready : store.valid (.eventFlags (.own eventflags)) → store.registered (.eventFlags (.own eventflags)))
    (settled : Settled store (.eventFlags (.own eventflags))) :
    Makes (.eventFlags (.own eventflags))
      ((ObjectUse.osEventFlagsDelete eventflags).Leaves .thread store)
      ((ObjectUse.osEventFlagsDelete eventflags).code .thread) store := by
  apply makes_deletes
  apply makes_osEventFlagsDelete rfl
  · exact fun status invalid _ => leaves_refused settled fun accepts => invalid accepts.2.1
  · intro valid _
    refine ⟨settled, fun code isIt accepts => ?_⟩
    cases isIt
    simpa [Recoverable, ObjectUse.object, RtosObject.parts, OsStatus.code_eq_osOK] using ⟨valid, ready valid⟩
  · intro valid
    refine ⟨⟨nofun, fun _ _ part isPart => nomatch isPart⟩, fun code isIt accepts => ?_⟩
    cases isIt
    simp [Recoverable, ObjectUse.object, RtosObject.parts]

theorem makes_osMemoryPoolDelete (pool : Word) (settled : Settled store (.memoryPool (.own pool))) :
    Makes (.memoryPool (.own pool)) ((ObjectUse.osMemoryPoolDelete pool).Leaves .thread store)
      ((ObjectUse.osMemoryPoolDelete pool).code .thread) store := by
  apply makes_deletes
  apply makes_destroy rfl
  · exact fun status invalid _ => leaves_refused settled fun accepts => invalid accepts.2.1
  · intro valid
    obtain ⟨partValid, partRegistered, notAllocated⟩ :=
      settled.parts valid (settled.registered rfl valid) _ List.mem_cons_self
    apply makes_osSemaphoreDelete rfl (by simp [partValid])
    rw [if_pos rfl]
    refine ⟨settled_of_invalid (by simp [ObjectUse.object]), fun code isIt accepts => ?_⟩
    cases isIt
    simp [Recoverable, ObjectUse.object, RtosObject.parts, notAllocated rfl]

theorem makes_osMessageQueueDelete (queue : Word)
    (ready : store.valid (.messageQueue queue) → ¬store.allocated (.memoryPool (.messagePool queue)))
    (settled : Settled store (.messageQueue queue)) :
    Makes (.messageQueue queue) ((ObjectUse.osMessageQueueDelete queue).Leaves .thread store)
      ((ObjectUse.osMessageQueueDelete queue).code .thread) store := by
  apply makes_deletes
  apply makes_destroy rfl
  · exact fun status invalid _ => leaves_refused settled fun accepts => invalid accepts.2.1
  · intro valid
    have intact := settled.parts valid (settled.registered rfl valid)
    obtain ⟨dataValid, _, dataStatic⟩ := intact (.semaphore (.dataAvailable queue)) (by simp [RtosObject.parts])
    obtain ⟨poolValid, _, _⟩ := intact (.memoryPool (.messagePool queue)) (by simp [RtosObject.parts])
    obtain ⟨semaphoreValid, _, semaphoreStatic⟩ :=
      intact (.semaphore (.poolSemaphore (.messagePool queue))) (by simp [RtosObject.parts])
    apply Ensures.bind
    apply makes_osSemaphoreDelete rfl (by simp [dataValid])
    apply makes_of_osOK rfl
    apply makes_destroy rfl
    · intro status invalid _
      simp [poolValid] at invalid
    · intro _
      apply makes_osSemaphoreDelete rfl (by simp [semaphoreValid])
      rw [if_pos rfl, if_pos rfl]
      refine ⟨settled_of_invalid (by simp [ObjectUse.object]), fun code isIt accepts => ?_⟩
      cases isIt
      simp [Recoverable, ObjectUse.object, RtosObject.parts, ready valid, dataStatic rfl, semaphoreStatic rfl]

theorem leaves_unchanged {thread : Word} {times rounds : Nat} {status : Word}
    (settled : Settled store (.thread thread)) (valid : store.valid (.thread thread))
    (registered : store.registered (.thread thread)) (fails : status ≠ OsStatus.osOK.code) :
    (ObjectUse.osThreadJoin times rounds thread).Leaves context store (some status) store := by
  refine ⟨settled, fun code isIt _ => ?_⟩
  cases isIt
  rw [Recoverable, if_neg fails]
  intro part member
  rcases List.mem_cons.mp member with isWhole | isPart
  · rw [isWhole]
    exact ⟨valid, registered, rfl⟩
  · obtain ⟨partValid, partRegistered, _⟩ := settled.parts valid registered part isPart
    exact ⟨partValid, partRegistered, rfl⟩

theorem flags_ne_osOK {flags : Word} (error : flags &&& osFlagsError ≠ 0) :
    flags ≠ OsStatus.osOK.code := by
  intro same
  subst same
  exact error (by decide)

theorem makes_joined {thread : Word} {times rounds : Nat} (settled : Settled store (.thread thread))
    (valid : store.valid (.thread thread)) (registered : store.registered (.thread thread)) :
    Makes (.thread thread) ((ObjectUse.osThreadJoin times rounds thread).Leaves .thread store)
      (do
        let joiner ← osEventFlagsDelete .thread (.joiner thread)
        if joiner ≠ .osOK then return some joiner.code
        let flags ← osEventFlagsDelete .thread (.flags thread)
        if flags ≠ .osOK then return some flags.code
        Objects.store (.thread thread) .marker 0
        releaseDynamic (.thread thread)
        return some OsStatus.osOK.code)
      (store.unlist (.resource (.thread thread))) := by
  have intact := settled.parts valid registered
  obtain ⟨joinerValid, _, joinerStatic⟩ := intact (.eventFlags (.joiner thread)) (by simp [RtosObject.parts])
  obtain ⟨flagsValid, _, flagsStatic⟩ := intact (.eventFlags (.flags thread)) (by simp [RtosObject.parts])
  apply Ensures.bind
  apply makes_osEventFlagsDelete rfl
  · intro status invalid _
    simp [joinerValid] at invalid
  · exact fun _ notEmbedded => nomatch notEmbedded
  intro _
  apply makes_of_osOK rfl
  apply Ensures.bind
  apply makes_osEventFlagsDelete rfl
  · intro status invalid _
    simp [flagsValid] at invalid
  · exact fun _ notEmbedded => nomatch notEmbedded
  intro _
  apply makes_of_osOK rfl
  apply Ensures.bind
  apply makes_store rfl
  apply Ensures.bind
  apply makes_releaseDynamic rfl
  refine ⟨settled_of_invalid (by simp [ObjectUse.object]), fun code isIt accepts => ?_⟩
  cases isIt
  simp [Recoverable, ObjectUse.object, RtosObject.parts, joinerStatic rfl, flagsStatic rfl]

theorem makes_osThreadJoin (times rounds : Nat) (thread : Word)
    (settled : Settled store (.thread thread)) :
    Makes (.thread thread) ((ObjectUse.osThreadJoin times rounds thread).Leaves .thread store)
      ((ObjectUse.osThreadJoin times rounds thread).code .thread) store := by
  rw [ObjectUse.code, osThreadJoin]
  apply makes_of_osOK rfl
  apply Ensures.bind
  refine makes_isRegistered rfl rfl ?_
  by_cases registered : store.registered (.thread thread)
  · rw [if_pos registered]
    refine Ensures.ite (fun isError => nomatch isError) fun _ => ?_
    apply Ensures.bind
    apply makes_valid rfl
    apply Ensures.ite
    · exact fun invalid => leaves_refused settled fun accepts => invalid accepts.2.1
    intro accepted
    have valid : store.valid (.thread thread) := not_not.mp accepted
    have unchanged := fun status => @leaves_unchanged store .thread thread times rounds status settled valid
      registered
    apply Ensures.bind
    apply observes_getStateIsError
    intro isError
    apply Ensures.ite
    · exact fun _ => unchanged _ (by decide)
    intro _
    apply Ensures.bind
    apply observes_load
    intro attrBits
    apply Ensures.ite
    · exact fun _ => unchanged _ (by decide)
    intro _
    apply Ensures.bind
    apply observes_osThreadGetId
    intro self
    apply Ensures.ite
    · exact fun _ => unchanged _ (by decide)
    intro _
    apply Ensures.bind
    apply observes_ask
    intro flags
    apply Ensures.ite
    · exact fun error => unchanged _ (flags_ne_osOK error)
    intro _
    apply Ensures.bind
    apply makes_remove rfl
    apply makes_of_osOK rfl
    apply Ensures.bind
    apply makes_osReleaseRobustMutex
    · refine ⟨⟨nofun, fun _ stillThere => ?_⟩, nofun⟩
      simp [ObjectUse.object] at stillThere
    · exact .ite (fun fails => absurd rfl fails) fun _ => makes_joined settled valid registered
  · rw [if_neg registered]
    exact .ite (fun _ => leaves_refused settled fun accepts => registered accepts.2.2)
      fun other => absurd rfl other

theorem leaves_constructed (settled : Settled store use.object) :
    use.Leaves context begun none store := ⟨settled, nofun⟩

theorem makes_osEventFlagsNew (eventflags : Word) (given : GivenAttr)
    (settled : Settled store (.eventFlags (.own eventflags))) :
    Makes (.eventFlags (.own eventflags))
      ((ObjectUse.osEventFlagsNew eventflags given).Leaves .thread store)
      ((ObjectUse.osEventFlagsNew eventflags given).code .thread) store := by
  apply makes_constructs
  refine @makes_construct _ _ _ _ (.own eventflags) _ _ _ _ _ _ _ _ (.own eventflags) rfl (fun _ => rfl)
    (given.isFor _) (fun _ => rfl) (leaves_constructed settled) fun allocated => ?_
  apply makes_store rfl
  exact leaves_constructed ⟨nofun, fun _ _ part isPart => nomatch isPart⟩

theorem makes_osDequeNew (deque elementSize : Word) (given : GivenAttr)
    (settled : Settled store (.deque deque)) :
    Makes (.deque deque) ((ObjectUse.osDequeNew deque elementSize given).Leaves .thread store)
      ((ObjectUse.osDequeNew deque elementSize given).code .thread) store := by
  apply makes_constructs
  rw [osDequeNew]
  apply makes_of_osOK rfl
  apply Ensures.ite
  · exact fun _ => leaves_constructed settled
  intro _
  apply Ensures.bind
  refine makes_controlBlocks (given.isFor deque) (fun _ => rfl) (leaves_constructed settled) fun _ => ?_
  apply Ensures.bind
  refine makes_storeBits rfl fun middle => ?_
  apply Ensures.bind
  apply makes_store rfl
  apply Ensures.bind
  apply makes_osEventFlagsNewPart rfl
  apply Ensures.bind
  apply makes_add rfl
  apply makes_of_osOK rfl
  apply leaves_constructed
  constructor
  · simp [ObjectUse.object, RtosObject.resourceId]
  · simp [ObjectUse.object, RtosObject.parts, RtosObject.resourceId, RtosObject.marker]

theorem makes_unregistered {thread : Word} {eventflags : EventFlagsId}
    (own : (RtosObject.eventFlags eventflags).whole = .thread thread)
    (gone : ¬store.registered (.thread thread)) :
    Makes (.thread thread) (fun _ ended => ¬ended.registered (.thread thread))
      (osEventFlagsDelete .thread eventflags) store := by
  apply makes_osEventFlagsDelete own
  · exact fun _ _ _ => gone
  · exact fun _ _ => gone
  · intro _
    simp [gone]

theorem makes_osThreadNew (thread func : Word) (priority : Int) (given : GivenAttr)
    (settled : Settled store (.thread thread)) :
    Makes (.thread thread) ((ObjectUse.osThreadNew thread func priority given).Leaves .thread store)
      ((ObjectUse.osThreadNew thread func priority given).code .thread) store := by
  apply makes_constructs
  rw [osThreadNew]
  apply Ensures.ite
  · exact fun _ => leaves_constructed settled
  intro _
  apply makes_of_osOK rfl
  apply Ensures.ite
  · exact fun _ => leaves_constructed settled
  intro _
  apply Ensures.bind
  refine makes_controlBlocks (given.isFor thread) (fun _ => rfl) (leaves_constructed settled) fun _ => ?_
  apply Ensures.bind
  apply makes_store rfl
  apply Ensures.bind
  apply makes_store rfl
  apply Ensures.bind
  apply makes_osEventFlagsNewPart rfl
  apply Ensures.bind
  apply makes_osEventFlagsNewPart rfl
  apply Ensures.bind
  apply makes_add rfl
  apply makes_of_osOK rfl
  apply Ensures.bind
  apply observes_ask
  intro created
  apply Ensures.ite
  · intro _
    apply Ensures.bind
    apply makes_remove rfl
    apply Ensures.bind
    apply (makes_unregistered rfl (by simp)).mono
    intro _ middle gone
    apply Ensures.bind
    apply (makes_unregistered rfl gone).mono
    intro _ last gone
    apply Ensures.bind
    apply makes_releaseDynamic rfl
    exact leaves_constructed ⟨nofun, fun _ stillThere => absurd (registered_freeDynamic.mp stillThere) gone⟩
  · intro _
    apply leaves_constructed
    constructor
    · simp [ObjectUse.object, RtosObject.resourceId]
    · simp [ObjectUse.object, RtosObject.parts, RtosObject.resourceId, RtosObject.marker]

theorem makes_controlBlocksPart {owner : RtosObject} {Place : Type} {place : Place} {own : Word → Place}
    {post : Option (Place × Bool) → ObjectStore → Prop} (holds : post (some (place, false)) store) :
    Makes owner post (controlBlocks (.embedded place) own) store := holds

theorem makes_osMemoryPoolNew {owner : RtosObject} {pool : PoolId} {blockSize : Word}
    {attr : ObjectAttr PoolId} {post : Option PoolId → ObjectStore → Prop}
    (own : (RtosObject.memoryPool pool).whole = owner)
    (ownSemaphore : (RtosObject.semaphore (.poolSemaphore pool)).whole = owner)
    (misaligned : blockSize ≠ (blockSize + 3) &&& ~~~3 → post none store)
    (memory : ∀ result : Option (PoolId × Bool) → ObjectStore → Prop, result none store ∨
        attr = .embedded pool → (∀ allocated, result (some (pool, allocated)) store) →
      Makes owner result (controlBlocks attr .own) store)
    (fails : post none store ∨ attr = .embedded pool)
    (holds : ∀ middle : ObjectStore, post (some pool) ((((((middle.set (.memoryPool pool) .marker
      rtosMemoryPoolMarker).set (.semaphore (.poolSemaphore pool)) .marker rtosSemaphoreMarker).set
        (.semaphore (.poolSemaphore pool)) .attrBits 0).enlist (.resource .osResourceSemaphore)
          (.resource (.semaphore (.poolSemaphore pool)))).enlist (.resource .osResourceMemoryPool)
            (.resource (.memoryPool pool))))) :
    Makes owner post (osMemoryPoolNew .thread blockSize attr) store := by
  rw [osMemoryPoolNew]
  apply makes_of_osOK rfl
  apply Ensures.ite
  · exact misaligned
  intro _
  apply Ensures.bind
  refine memory _ fails fun _ => ?_
  apply Ensures.bind
  refine makes_storeBits own fun middle => ?_
  apply Ensures.bind
  apply makes_store own
  apply Ensures.bind
  apply makes_osSemaphoreNewPart ownSemaphore
  apply Ensures.bind
  apply makes_add own
  apply makes_of_osOK rfl
  exact holds middle

theorem makes_osMemoryPoolNewOwn (pool blockSize : Word) (given : GivenAttr)
    (settled : Settled store (.memoryPool (.own pool))) :
    Makes (.memoryPool (.own pool))
      ((ObjectUse.osMemoryPoolNew pool blockSize given).Leaves .thread store)
      ((ObjectUse.osMemoryPoolNew pool blockSize given).code .thread) store := by
  have failed := @leaves_constructed store store .thread
    (.osMemoryPoolNew pool blockSize given) settled
  apply makes_constructs
  refine @makes_osMemoryPoolNew _ _ (.own pool) _ _ _ rfl rfl (fun _ => failed) ?_ (Or.inl failed)
    fun middle => ?_
  · rintro result (fails | isPart) holds
    · exact makes_controlBlocks (given.isFor _) (fun _ => rfl) fails holds
    · rw [isPart]
      exact makes_controlBlocksPart (holds false)
  · apply leaves_constructed
    constructor
    · simp [ObjectUse.object, RtosObject.resourceId]
    · simp [ObjectUse.object, RtosObject.parts, RtosObject.resourceId, RtosObject.marker]

theorem makes_osMessageQueueNew (queue msgSize : Word) (given : GivenAttr)
    (settled : Settled store (.messageQueue queue)) :
    Makes (.messageQueue queue) ((ObjectUse.osMessageQueueNew queue msgSize given).Leaves .thread store)
      ((ObjectUse.osMessageQueueNew queue msgSize given).code .thread) store := by
  apply makes_constructs
  rw [osMessageQueueNew]
  apply makes_of_osOK rfl
  apply Ensures.bind
  refine makes_controlBlocks (given.isFor queue) (fun _ => rfl) (leaves_constructed settled) fun _ => ?_
  apply Ensures.bind
  refine makes_storeBits rfl fun middle => ?_
  apply Ensures.bind
  apply makes_store rfl
  apply Ensures.bind
  refine @makes_osMemoryPoolNew _ _ (.messagePool queue) _ _ _ rfl rfl
    (fun misaligned => absurd (message_aligned (msgSize + 3)) misaligned) ?_ (Or.inr rfl) fun part => ?_
  · exact fun _ _ holds => makes_controlBlocksPart (holds false)
  apply Ensures.bind
  apply makes_osSemaphoreNewPart rfl
  apply Ensures.bind
  apply makes_add rfl
  apply makes_of_osOK rfl
  apply leaves_constructed
  constructor
  · simp [ObjectUse.object, RtosObject.resourceId]
  · simp [ObjectUse.object, RtosObject.parts, RtosObject.resourceId, RtosObject.marker, RtosObject.hasBits]

theorem makes_refused (refused : osKernelContextIsValid false 0 context ≠ .osOK)
    (settled : Settled store use.object) :
    Makes use.object (use.Leaves context store) (use.code context) store := by
  have notThread : context ≠ .thread := by
    rintro rfl
    exact refused rfl
  have deletes : ∀ status, use.Leaves context store (some status) store :=
    fun _ => leaves_refused settled fun accepts => notThread accepts.1
  have constructs : use.Leaves context store none store := leaves_constructed settled
  cases use with
  | osThreadNew thread func priority given =>
      apply makes_constructs
      rw [osThreadNew]
      apply Ensures.ite
      · exact fun _ => constructs
      · exact fun _ => .ite (fun _ => constructs) fun accepted => absurd refused accepted
  | osMessageQueueNew | osMemoryPoolNew | osDequeNew | osEventFlagsNew =>
      apply makes_constructs
      exact .ite (fun _ => constructs) fun accepted => absurd refused accepted
  | osThreadJoin => exact .ite (fun _ => deletes _) fun accepted => absurd refused accepted
  | osMessageQueueDelete | osMemoryPoolDelete | osDequeDelete | osEventFlagsDelete =>
      apply makes_deletes
      exact .ite (fun _ => deletes _) fun accepted => absurd refused accepted

theorem makes_code (ready : use.Ready store) (settled : Settled store use.object) :
    Makes use.object (use.Leaves context store) (use.code context) store := by
  cases context with
  | handler => exact makes_refused (by decide) settled
  | thread =>
      cases use with
      | osThreadNew thread func priority given => exact makes_osThreadNew thread func priority given settled
      | osMessageQueueNew queue msgSize given => exact makes_osMessageQueueNew queue msgSize given settled
      | osMemoryPoolNew pool blockSize given => exact makes_osMemoryPoolNewOwn pool blockSize given settled
      | osDequeNew deque elementSize given => exact makes_osDequeNew deque elementSize given settled
      | osEventFlagsNew eventflags given => exact makes_osEventFlagsNew eventflags given settled
      | osThreadJoin times rounds thread => exact makes_osThreadJoin times rounds thread settled
      | osMessageQueueDelete queue => exact makes_osMessageQueueDelete queue ready settled
      | osMemoryPoolDelete pool => exact makes_osMemoryPoolDelete pool settled
      | osDequeDelete deque => exact makes_osDequeDelete deque settled
      | osEventFlagsDelete eventflags => exact makes_osEventFlagsDeleteOwn eventflags ready settled

end Uses

section Stable

variable {owner object : RtosObject} {store next : ObjectStore} {use : ObjectUse}

theorem valid_same (same : ObjectStore.SameFor owner store next) (own : object.whole = owner) :
    next.valid object ↔ store.valid object := by
  rw [ObjectStore.valid, ObjectStore.valid,
    same.memory object .marker own fun same => by cases same]

theorem allocated_same (same : ObjectStore.SameFor owner store next) (own : object.whole = owner) :
    next.allocated object ↔ store.allocated object := by
  rw [ObjectStore.allocated, ObjectStore.allocated,
    same.memory object .attrBits own fun same => by cases same]

theorem registered_same (same : ObjectStore.SameFor owner store next) (own : object.whole = owner) :
    next.registered object ↔ store.registered object :=
  same.listed object _ own

theorem ObjectUse.whole_object (use : ObjectUse) : use.object.whole = use.object := by
  cases use with
  | _ => rfl

theorem ObjectUse.whole_part {part : RtosObject} (isPart : part ∈ use.object :: use.object.parts) :
    part.whole = use.object := by
  rcases List.mem_cons.mp isPart with isWhole | isPart
  · rw [isWhole, use.whole_object]
  · cases use with
    | osEventFlagsNew | osEventFlagsDelete => cases isPart
    | osThreadNew | osThreadJoin =>
        simp only [ObjectUse.object, RtosObject.parts, List.mem_cons, List.not_mem_nil, or_false] at isPart
        rcases isPart with rfl | rfl
        · rfl
        · rfl
    | osMessageQueueNew | osMessageQueueDelete =>
        simp only [ObjectUse.object, RtosObject.parts, List.mem_cons, List.not_mem_nil, or_false] at isPart
        rcases isPart with rfl | rfl | rfl
        · rfl
        · rfl
        · rfl
    | osMemoryPoolNew | osMemoryPoolDelete | osDequeNew | osDequeDelete =>
        obtain rfl := List.mem_singleton.mp isPart
        rfl

theorem Settled.same (settled : Settled store use.object)
    (same : ObjectStore.SameFor use.object store next) : Settled next use.object := by
  have own := use.whole_object
  refine ⟨fun clears valid => ?_, fun valid registered part isPart => ?_⟩
  · exact (registered_same same own).mpr (settled.registered clears ((valid_same same own).mp valid))
  · have whole := ObjectUse.whole_part (List.mem_cons_of_mem _ isPart)
    rw [valid_same same whole, registered_same same whole, allocated_same same whole]
    exact settled.parts ((valid_same same own).mp valid) ((registered_same same own).mp registered) part
      isPart

theorem ObjectUse.stable_leaves {context : Context} {begun : ObjectStore} :
    Stable objectSemantics use.object (use.Leaves context begun) := by
  rintro status store next same ⟨settled, ends⟩
  refine ⟨settled.same same, fun code isIt accepts => ?_⟩
  have recoverable := ends code isIt accepts
  rw [Recoverable] at recoverable ⊢
  split
  · rename_i succeeds
    rw [if_pos succeeds] at recoverable
    intro part isPart
    have whole := ObjectUse.whole_part isPart
    rw [registered_same same whole, same.released part whole]
    exact recoverable part isPart
  · rename_i fails
    rw [if_neg fails] at recoverable
    intro part isPart
    have whole := ObjectUse.whole_part isPart
    rw [valid_same same whole, registered_same same whole, same.released part whole]
    exact recoverable part isPart

end Stable

end PicoToolkit.Objects
