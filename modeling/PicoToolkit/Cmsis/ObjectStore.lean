import PicoToolkit.Cmsis.ObjectCalls
import PicoToolkit.Library.Separate

/-!
The control blocks and the lists of all objects as a store, and what the functions that create and delete
objects do to it.
-/

namespace PicoToolkit.Objects

open Locking

def RtosObject.marker : RtosObject → Word
  | .thread _ => rtosThreadMarker
  | .mutex _ => rtosMutexMarker
  | .memoryPool _ => rtosMemoryPoolMarker
  | .semaphore _ => rtosSemaphoreMarker
  | .eventFlags _ => rtosEventflagsMarker
  | .timer _ => rtosTimerMarker
  | .messageQueue _ => rtosMessageQueueMarker
  | .deque _ => rtosDequeMarker

def RtosObject.whole : RtosObject → RtosObject
  | .eventFlags (.flags address) | .eventFlags (.joiner address) => .thread address
  | .eventFlags (.events address) => .deque address
  | .memoryPool (.messagePool address) | .semaphore (.dataAvailable address)
  | .semaphore (.poolSemaphore (.messagePool address)) => .messageQueue address
  | .semaphore (.poolSemaphore (.own address)) => .memoryPool (.own address)
  | object => object

def RtosObject.parts : RtosObject → List RtosObject
  | .thread address => [.eventFlags (.joiner address), .eventFlags (.flags address)]
  | .memoryPool id => [.semaphore (.poolSemaphore id)]
  | .messageQueue address => [.semaphore (.dataAvailable address), .memoryPool (.messagePool address),
      .semaphore (.poolSemaphore (.messagePool address))]
  | .deque address => [.eventFlags (.events address)]
  | _ => []

def RtosObject.embedded (object : RtosObject) : Bool := decide (object.whole ≠ object)

def RtosObject.address : RtosObject → Word
  | .thread address | .memoryPool (.own address) | .semaphore (.own address) | .eventFlags (.own address)
  | .timer address | .messageQueue address | .deque address => address
  | .mutex id => id.address
  | _ => 0

/-- The fields of all control blocks, the lists, and the control blocks that have been given back. -/
structure ObjectStore where
  memory : RtosObject → ObjectField → Word
  lists : ListId → List ObjectNode
  released : List RtosObject

namespace ObjectStore

variable (store : ObjectStore)

def set (object : RtosObject) (field : ObjectField) (value : Word) : ObjectStore :=
  { store with
    memory := Function.update store.memory object (Function.update (store.memory object) field value) }

def enlist (list : ListId) (node : ObjectNode) : ObjectStore :=
  { store with lists := Function.update store.lists list (store.lists list ++ [node]) }

def unlist (node : ObjectNode) : ObjectStore :=
  { store with lists := fun list => (store.lists list).filter fun other => decide (other ≠ node) }

def free (object : RtosObject) : ObjectStore := { store with released := store.released ++ [object] }

def valid (object : RtosObject) : Prop :=
  PicoToolkit.osIsResourceValid (store.memory object .marker) object.marker = .osOK

def registered (object : RtosObject) : Prop :=
  .resource object ∈ store.lists (.resource object.resourceId)

/-- `attr_bits & osDynamicAlloc` -/
def allocated (object : RtosObject) : Prop := store.memory object .attrBits &&& osDynamicAlloc ≠ 0

instance (object : RtosObject) : Decidable (store.valid object) :=
  inferInstanceAs (Decidable (_ = _))

instance (object : RtosObject) : Decidable (store.registered object) :=
  inferInstanceAs (Decidable (_ ∈ _))

instance (object : RtosObject) : Decidable (store.allocated object) :=
  inferInstanceAs (Decidable (_ ≠ _))

/-- `if (object->attr_bits & osDynamicAlloc)` -/
def freeDynamic (object : RtosObject) : ObjectStore :=
  if store.allocated object then store.free object else store

def after : RtosOp → ObjectStore
  | .insert list node => store.enlist list node
  | .remove node => store.unlist node
  | .perform (.store object field value) => store.set object field value
  | .perform (.release object) => store.free object
  | _ => store

/-- The same control blocks and places in lists of an object and its parts; waiters come and go. -/
structure SameFor (owner : RtosObject) (store next : ObjectStore) : Prop where
  memory : ∀ object field, object.whole = owner → field ≠ .waiters →
    next.memory object field = store.memory object field
  listed : ∀ object list, object.whole = owner →
    (.resource object ∈ next.lists list ↔ .resource object ∈ store.lists list)
  released : ∀ object, object.whole = owner →
    next.released.count object = store.released.count object

end ObjectStore

def Within (owner : RtosObject) : RtosOp → Prop
  | .insert _ (.resource object) | .remove (.resource object)
  | .perform (.store object _ _) | .perform (.release object) => object.whole = owner
  | .insert _ (.active timer) | .remove (.active timer) => .timer timer = owner
  | _ => True

/-- What a call learns about its object, of whose attribute bits one stays the same: the allocator returns its
control block or nothing, nobody waits for the event flags in a control block, and no release of a robust
mutex fails. -/
def Learns (owner : RtosObject) (store : ObjectStore) (op : RtosOp) (answer : op.Answer Word) : Prop :=
  match op, answer with
  | .traverse list, found => ∀ object : RtosObject, object.whole = owner →
      (.resource object ∈ found ↔ .resource object ∈ store.lists list)
  | .perform (.load object field), value =>
      (object.whole = owner → field = .marker → value = store.memory object .marker) ∧
        (object.whole = owner → field = .attrBits →
          (value &&& osDynamicAlloc ≠ 0 ↔ store.allocated object)) ∧
        (object.embedded → field = .waiters → ¬0 < value.toInt)
  | .perform (.ask .allocate), value => value = 0 ∨ value = owner.address
  | .perform (.ask (.mutexRobustRelease _ _)), value => value = OsStatus.osOK.code
  | .perform (.ask _), _ | .perform (.store _ _ _), _ | .perform (.release _), _ => True
  | .lock _, _ | .unlock _, _ | .insert _ _, _ | .remove _, _ | .isLinked _, _ => True

section Store

variable {store next : ObjectStore} {object other : RtosObject} {owner : RtosObject} {field : ObjectField}
  {list : ListId} {value : Word}

@[simp]
theorem osIsResourceValid_zero (object : RtosObject) :
    PicoToolkit.osIsResourceValid 0#32 object.marker ≠ .osOK := by
  cases object with
  | _ =>
      rw [RtosObject.marker]
      decide

theorem memory_set_self : (store.set object field value).memory object field = value := by
  simp [ObjectStore.set]

theorem memory_set_of_ne {otherField : ObjectField} (different : other ≠ object ∨ otherField ≠ field) :
    (store.set object field value).memory other otherField = store.memory other otherField := by
  rw [ObjectStore.set]
  by_cases same : other = object
  · subst same
    have differentField := different.resolve_left (fun ne => ne rfl)
    simp [differentField]
  · simp [same]

theorem mem_enlist {node otherNode : ObjectNode} {otherList : ListId} :
    otherNode ∈ (store.enlist list node).lists otherList ↔
      otherNode ∈ store.lists otherList ∨ otherList = list ∧ otherNode = node := by
  rw [ObjectStore.enlist]
  by_cases same : otherList = list
  · subst same
    simp
  · simp [same]

theorem mem_unlist {node otherNode : ObjectNode} :
    otherNode ∈ (store.unlist node).lists list ↔ otherNode ∈ store.lists list ∧ otherNode ≠ node := by
  simp [ObjectStore.unlist]

theorem count_free : (store.free object).released.count other =
    store.released.count other + if other = object then 1 else 0 := by
  rw [ObjectStore.free, List.count_append, List.count_singleton]
  by_cases same : other = object
  · subst same
    simp
  · simp [same, Ne.symm same]

theorem sameFor_after {op : RtosOp} (within : Within owner op) (different : owner ≠ other) :
    ObjectStore.SameFor other store (store.after op) := by
  have apart : ∀ {object part : RtosObject}, object.whole = owner → part.whole = other → part ≠ object := by
    intro object part isOwner isOther same
    subst same
    exact different (isOwner.symm.trans isOther)
  cases op with
  | lock list | unlock list | isLinked node | traverse list =>
      exact ⟨fun _ _ _ _ => rfl, fun _ _ _ => Iff.rfl, fun _ _ => rfl⟩
  | insert list node =>
      refine ⟨fun _ _ _ _ => rfl, fun part list isOther => ?_, fun _ _ => rfl⟩
      rw [ObjectStore.after, mem_enlist]
      have notIt : ObjectNode.resource part ≠ node := by
        intro same
        subst same
        exact apart within isOther rfl
      simp [notIt]
  | remove node =>
      refine ⟨fun _ _ _ _ => rfl, fun part list isOther => ?_, fun _ _ => rfl⟩
      rw [ObjectStore.after, mem_unlist]
      have notIt : ObjectNode.resource part ≠ node := by
        intro same
        subst same
        exact apart within isOther rfl
      simp [notIt]
  | perform effect =>
      cases effect with
      | load object field | ask request =>
          exact ⟨fun _ _ _ _ => rfl, fun _ _ _ => Iff.rfl, fun _ _ => rfl⟩
      | store object field value =>
          refine ⟨fun part other isOther _ => ?_, fun _ _ _ => Iff.rfl, fun _ _ => rfl⟩
          exact memory_set_of_ne (Or.inl (apart within isOther))
      | release object =>
          refine ⟨fun _ _ _ _ => rfl, fun _ _ _ => Iff.rfl, fun part isOther => ?_⟩
          rw [ObjectStore.after, count_free, if_neg (apart within isOther), Nat.add_zero]

theorem after_sameFor (op : RtosOp) (same : ObjectStore.SameFor owner store next) :
    ObjectStore.SameFor owner (store.after op) (next.after op) := by
  cases op with
  | lock list | unlock list | isLinked node | traverse list => exact same
  | insert list node =>
      refine ⟨same.memory, fun part list isOwner => ?_, same.released⟩
      rw [ObjectStore.after, mem_enlist, ObjectStore.after, mem_enlist, same.listed part list isOwner]
  | remove node =>
      refine ⟨same.memory, fun part list isOwner => ?_, same.released⟩
      rw [ObjectStore.after, mem_unlist, ObjectStore.after, mem_unlist, same.listed part list isOwner]
  | perform effect =>
      cases effect with
      | load object field | ask request => exact same
      | store object field value =>
          refine ⟨fun part other isOwner counts => ?_, same.listed, same.released⟩
          by_cases isIt : part = object ∧ other = field
          · obtain ⟨rfl, rfl⟩ := isIt
            rw [ObjectStore.after, ObjectStore.after, memory_set_self, memory_set_self]
          · have different : part ≠ object ∨ other ≠ field := Decidable.not_and_iff_not_or_not.mp isIt
            rw [ObjectStore.after, ObjectStore.after, memory_set_of_ne different,
              memory_set_of_ne different]
            exact same.memory part other isOwner counts
      | release object =>
          refine ⟨same.memory, same.listed, fun part isOwner => ?_⟩
          rw [ObjectStore.after, ObjectStore.after, count_free, count_free, same.released part isOwner]

theorem learns_sameFor {op : RtosOp} {answer : op.Answer Word}
    (same : ObjectStore.SameFor owner store next) (learns : Learns owner next op answer) :
    Learns owner store op answer := by
  cases op with
  | lock list | unlock list | insert list node | remove node | isLinked node => trivial
  | traverse list =>
      intro object isOwner
      exact (learns object isOwner).trans (same.listed object list isOwner)
  | perform effect =>
      cases effect with
      | load object field =>
          refine ⟨fun isOwner isMarker => ?_, fun isOwner isBits => ?_, learns.2.2⟩
          · exact (learns.1 isOwner isMarker).trans (same.memory object .marker isOwner nofun)
          · rw [learns.2.1 isOwner isBits, ObjectStore.allocated, ObjectStore.allocated,
              same.memory object .attrBits isOwner nofun]
      | store object field value | release object => trivial
      | ask request =>
          cases request with
          | _ => exact learns

end Store

def objectSemantics : Semantics RtosObject ListId ObjectNode ObjectEffect Word ObjectStore where
  after := ObjectStore.after
  within := Within
  possible := Learns
  same := ObjectStore.SameFor
  same_after _ within different := sameFor_after within different
  after_same op same := after_sameFor op same
  possible_same same learns := learns_sameFor same learns

section Facts

variable {store : ObjectStore} {object other : RtosObject} {field : ObjectField} {list : ListId}
  {node : ObjectNode} {value : Word}

@[simp]
theorem valid_set : (store.set object field value).valid other ↔
    if other = object ∧ field = .marker then
      PicoToolkit.osIsResourceValid value other.marker = .osOK
    else store.valid other := by
  by_cases isIt : other = object ∧ field = .marker
  · obtain ⟨rfl, rfl⟩ := isIt
    rw [if_pos ⟨rfl, rfl⟩, ObjectStore.valid, memory_set_self]
  · have different : other ≠ object ∨ ObjectField.marker ≠ field :=
      (Decidable.not_and_iff_not_or_not.mp isIt).imp_right Ne.symm
    rw [if_neg isIt, ObjectStore.valid, memory_set_of_ne different, ObjectStore.valid]

@[simp]
theorem allocated_set : (store.set object field value).allocated other ↔
    if other = object ∧ field = .attrBits then value &&& osDynamicAlloc ≠ 0
    else store.allocated other := by
  by_cases isIt : other = object ∧ field = .attrBits
  · obtain ⟨rfl, rfl⟩ := isIt
    rw [if_pos ⟨rfl, rfl⟩, ObjectStore.allocated, memory_set_self]
  · have different : other ≠ object ∨ ObjectField.attrBits ≠ field :=
      (Decidable.not_and_iff_not_or_not.mp isIt).imp_right Ne.symm
    rw [if_neg isIt, ObjectStore.allocated, memory_set_of_ne different, ObjectStore.allocated]

@[simp]
theorem registered_set : (store.set object field value).registered other ↔ store.registered other :=
  Iff.rfl

@[simp]
theorem valid_enlist : (store.enlist list node).valid other ↔ store.valid other := Iff.rfl

@[simp]
theorem allocated_enlist : (store.enlist list node).allocated other ↔ store.allocated other := Iff.rfl

@[simp]
theorem registered_enlist : (store.enlist list node).registered other ↔
    store.registered other ∨ ListId.resource other.resourceId = list ∧ ObjectNode.resource other = node :=
  mem_enlist

@[simp]
theorem valid_unlist : (store.unlist node).valid other ↔ store.valid other := Iff.rfl

@[simp]
theorem allocated_unlist : (store.unlist node).allocated other ↔ store.allocated other := Iff.rfl

@[simp]
theorem registered_unlist : (store.unlist node).registered other ↔
    store.registered other ∧ ObjectNode.resource other ≠ node :=
  mem_unlist

@[simp]
theorem valid_freeDynamic : (store.freeDynamic object).valid other ↔ store.valid other := by
  rw [ObjectStore.freeDynamic]
  split
  · rfl
  · rfl

@[simp]
theorem allocated_freeDynamic :
    (store.freeDynamic object).allocated other ↔ store.allocated other := by
  rw [ObjectStore.freeDynamic]
  split
  · rfl
  · rfl

@[simp]
theorem registered_freeDynamic :
    (store.freeDynamic object).registered other ↔ store.registered other := by
  rw [ObjectStore.freeDynamic]
  split
  · rfl
  · rfl

@[simp]
theorem released_set : (store.set object field value).released = store.released := rfl

@[simp]
theorem released_enlist : (store.enlist list node).released = store.released := rfl

@[simp]
theorem released_unlist : (store.unlist node).released = store.released := rfl

@[simp]
theorem count_freeDynamic : (store.freeDynamic object).released.count other =
    store.released.count other + if other = object ∧ store.allocated object then 1 else 0 := by
  rw [ObjectStore.freeDynamic]
  by_cases isAllocated : store.allocated object
  · rw [if_pos isAllocated, count_free]
    simp [isAllocated]
  · simp [isAllocated]

end Facts

section Rules

variable {owner object : RtosObject} {store : ObjectStore} {Result : Type}

abbrev Makes (owner : RtosObject) (post : Result → ObjectStore → Prop) (code : RtosCode Result)
    (store : ObjectStore) : Prop :=
  Ensures objectSemantics owner post code store

theorem makes_marker {post : Word → ObjectStore → Prop} (own : object.whole = owner)
    (holds : post (store.memory object .marker) store) :
    Makes owner post (load object .marker) store := by
  refine ⟨trivial, fun value learns => ?_⟩
  have same : value = store.memory object .marker := learns.1 own rfl
  subst same
  exact holds

theorem makes_loadAny {field : ObjectField} {post : Word → ObjectStore → Prop}
    (holds : ∀ value, (object.embedded → field = .waiters → ¬0 < value.toInt) → post value store) :
    Makes owner post (load object field) store :=
  ⟨trivial, fun value learns => holds value learns.2.2⟩

theorem makes_store {field : ObjectField} {value : Word} {post : Unit → ObjectStore → Prop}
    (own : object.whole = owner) (holds : post () (store.set object field value)) :
    Makes owner post (Objects.store object field value) store :=
  ⟨own, fun _ _ => holds⟩

theorem makes_ask {request : ObjectRequest} {post : Word → ObjectStore → Prop}
    (holds : ∀ value, Learns owner store (.perform (.ask request)) value → post value store) :
    Makes owner post (ask request) store :=
  ⟨trivial, holds⟩

theorem makes_spinLock {list : ListId} {post : Unit → ObjectStore → Prop} (holds : post () store) :
    Makes owner post (spinLockIrqsave list) store :=
  ⟨trivial, fun _ _ => holds⟩

theorem makes_spinUnlock {list : ListId} {post : Unit → ObjectStore → Prop} (holds : post () store) :
    Makes owner post (spinUnlockIrqrestore list) store :=
  ⟨trivial, fun _ _ => holds⟩

theorem makes_listForEach {list : ListId} {post : List ObjectNode → ObjectStore → Prop}
    (holds : ∀ nodes, Learns owner store (.traverse list) nodes → post nodes store) :
    Makes owner post (listForEach list) store :=
  ⟨trivial, holds⟩

theorem makes_valid {marker : Word} {post : OsStatus → ObjectStore → Prop} (own : object.whole = owner)
    (holds : post (PicoToolkit.osIsResourceValid (store.memory object .marker) marker) store) :
    Makes owner post (osIsResourceValid object marker) store :=
  .bind (makes_marker own holds)

theorem makes_releaseDynamic {post : Unit → ObjectStore → Prop} (own : object.whole = owner)
    (holds : post () (store.freeDynamic object)) :
    Makes owner post (releaseDynamic object) store := by
  apply Ensures.bind
  refine ⟨trivial, fun attrBits learns => ?_⟩
  have isAllocated := learns.2.1 own rfl
  rw [ObjectStore.freeDynamic] at holds
  apply Ensures.ite
  · intro isSet
    rw [if_pos (isAllocated.mp isSet)] at holds
    exact ⟨own, fun _ _ => holds⟩
  · intro isClear
    rw [if_neg fun allocated => isClear (isAllocated.mpr allocated)] at holds
    exact holds

theorem makes_add {id : OsResourceId} {post : OsStatus → ObjectStore → Prop} (own : object.whole = owner)
    (holds : post .osOK (store.enlist (.resource id) (.resource object))) :
    Makes owner post (osKernelResourceAdd .thread id object) store :=
  ⟨trivial, fun _ _ => ⟨own, fun _ _ => ⟨trivial, fun _ _ => holds⟩⟩⟩

theorem makes_remove {id : OsResourceId} {post : OsStatus → ObjectStore → Prop}
    (own : object.whole = owner) (holds : post .osOK (store.unlist (.resource object))) :
    Makes owner post (osKernelResourceRemove .thread id object) store :=
  ⟨trivial, fun _ _ => ⟨own, fun _ _ => ⟨trivial, fun _ _ => holds⟩⟩⟩

theorem makes_of_osOK {status : OsStatus} {post : Result → ObjectStore → Prop}
    {early code : RtosCode Result} (succeeds : status = .osOK) (holds : Makes owner post code store) :
    Makes owner post (if status ≠ .osOK then early else code) store := by
  rw [if_neg (not_not_intro succeeds)]
  exact holds

theorem makes_destroy {id : OsResourceId} {parts : RtosCode OsStatus}
    {post : OsStatus → ObjectStore → Prop} (own : object.whole = owner)
    (invalid : ∀ status, ¬store.valid object → status ≠ .osOK → post status store)
    (deletes : store.valid object → Makes owner
      (fun status ended => if status = .osOK then post .osOK (ended.freeDynamic object)
        else post status ended)
      parts ((store.set object .marker 0).unlist (.resource object))) :
    Makes owner post (destroy .thread object object.marker id parts) store := by
  apply makes_of_osOK rfl
  apply Ensures.bind
  apply makes_valid own
  apply Ensures.ite
  · exact fun refused => invalid _ refused refused
  · intro accepted
    apply Ensures.bind
    apply makes_store own
    apply Ensures.bind
    apply makes_remove own
    apply makes_of_osOK rfl
    apply Ensures.bind
    apply (deletes (not_not.mp accepted)).mono
    intro status ended holds
    apply Ensures.ite
    · intro fails
      rw [if_neg fails] at holds
      exact holds
    · intro succeeds
      rw [if_pos (not_not.mp succeeds)] at holds
      exact .bind (makes_releaseDynamic own holds)

theorem makes_osSemaphoreDelete {semaphore : SemaphoreId} {post : OsStatus → ObjectStore → Prop}
    (own : (RtosObject.semaphore semaphore).whole = owner) (valid : store.valid (.semaphore semaphore))
    (holds : post .osOK (((store.set (.semaphore semaphore) .marker 0).unlist
      (.resource (.semaphore semaphore))).freeDynamic (.semaphore semaphore))) :
    Makes owner post (osSemaphoreDelete .thread semaphore) store := by
  apply makes_destroy own
  · exact fun _ invalid => absurd valid invalid
  · exact fun _ => .pure ((if_pos rfl).mpr holds)

theorem makes_osEventFlagsDelete {eventflags : EventFlagsId} {post : OsStatus → ObjectStore → Prop}
    (own : (RtosObject.eventFlags eventflags).whole = owner)
    (invalid : ∀ status, ¬store.valid (.eventFlags eventflags) → status ≠ .osOK → post status store)
    (waited : store.valid (.eventFlags eventflags) →
      (RtosObject.eventFlags eventflags).embedded = false → post .osErrorResource store)
    (holds : store.valid (.eventFlags eventflags) →
      post .osOK ((store.unlist (.resource (.eventFlags eventflags))).freeDynamic
        (.eventFlags eventflags))) :
    Makes owner post (osEventFlagsDelete .thread eventflags) store := by
  apply makes_of_osOK rfl
  apply Ensures.bind
  apply makes_valid own
  apply Ensures.ite
  · exact fun refused => invalid _ refused refused
  · intro accepted
    have isValid : store.valid (.eventFlags eventflags) := not_not.mp accepted
    apply Ensures.bind
    apply makes_loadAny
    intro waiters none_
    apply Ensures.ite
    · intro some_
      apply waited isValid
      cases embedded : (RtosObject.eventFlags eventflags).embedded with
      | false => rfl
      | true => exact absurd some_ (none_ embedded rfl)
    · intro _
      apply Ensures.bind
      apply makes_remove own
      apply makes_of_osOK rfl
      exact .bind (makes_releaseDynamic own (holds isValid))

section Memory

variable {Place : Type} {place : Place} {attr : ObjectAttr Place} {own : Word → Place}
  {post : Option (Place × Bool) → ObjectStore → Prop}

/-- The attributes are for the control block of this object, or for one that is to be allocated. -/
def ObjectAttr.IsFor (attr : ObjectAttr Place) (place : Place) : Prop :=
  attr.cbMem = some place ∨ attr.cbMem = none

theorem makes_controlBlock (isFor : attr.IsFor place) (allocates : attr.cbMem = none → own owner.address = place)
    (fails : post none store) (holds : ∀ allocated, post (some (place, allocated)) store) :
    Makes owner post (controlBlock attr own) store := by
  rw [controlBlock]
  rcases isFor with given | none_
  · rw [given]
    by_cases fits : attr.fits
    · simpa [fits] using Ensures.pure (holds false)
    · simpa [fits] using Ensures.pure fails
  · rw [none_]
    apply Ensures.bind
    apply makes_ask
    intro address returns
    by_cases isNull : address = 0
    · rw [if_pos isNull]
      exact fails
    · have same : address = owner.address := returns.resolve_left isNull
      rw [if_neg isNull, same, allocates none_]
      exact holds true

theorem makes_controlBlocks (isFor : attr.IsFor place) (allocates : attr.cbMem = none → own owner.address = place)
    (fails : post none store) (holds : ∀ allocated, post (some (place, allocated)) store) :
    Makes owner post (controlBlocks attr own) store := by
  rw [controlBlocks]
  rcases isFor with given | none_
  · rw [given]
    cases attr.dataMem with
    | false => exact fails
    | true =>
        by_cases fits : attr.fits
        · simpa [fits] using Ensures.pure (holds false)
        · simpa [fits] using Ensures.pure fails
  · rw [none_]
    cases attr.dataMem with
    | true => exact fails
    | false =>
        apply Ensures.bind
        apply makes_ask
        intro address returns
        by_cases isNull : address = 0
        · rw [if_pos isNull]
          exact fails
        · have same : address = owner.address := returns.resolve_left isNull
          rw [if_neg isNull, same, allocates none_]
          exact holds true

end Memory

theorem makes_construct {Id Place : Type} {place : Place} {attr : ObjectAttr Place} {own : Word → Place}
    {identify : Place → Word → Id} {object : Id → RtosObject} {marker : Word}
    {prepare : Id → RtosCode Unit} {id : Id → OsResourceId} {post : Option Id → ObjectStore → Prop}
    {new : Id} (isOwn : (object new).whole = owner) (identifies : ∀ bits, identify place bits = new)
    (isFor : attr.IsFor place) (allocates : attr.cbMem = none → own owner.address = place) (fails : post none store)
    (prepares : ∀ allocated, Makes owner (fun _ ended =>
        post (some new) (ended.enlist (.resource (id new)) (.resource (object new)))) (prepare new)
      ((store.set (object new) .marker marker).set (object new) .attrBits (attr.bits allocated))) :
    Makes owner post (construct .thread attr own identify object marker prepare id) store := by
  apply makes_of_osOK rfl
  apply Ensures.bind
  apply makes_controlBlock isFor allocates
  · exact .pure fails
  · intro allocated
    have isNew := identifies (attr.bits allocated)
    simp only [isNew]
    apply Ensures.bind
    apply makes_store isOwn
    apply Ensures.bind
    apply makes_store isOwn
    apply Ensures.bind
    apply (prepares allocated).mono
    intro _ ended holds
    apply Ensures.bind
    apply makes_add isOwn
    exact makes_of_osOK rfl (.pure holds)

theorem makes_constructPart {Id : Type} {place : Id} {own : Word → Id} {object : Id → RtosObject}
    {marker : Word} {prepare : Id → RtosCode Unit} {id : OsResourceId}
    {post : Option Id → ObjectStore → Prop} (isOwn : (object place).whole = owner)
    (prepares : Makes owner (fun _ ended =>
        post (some place) (ended.enlist (.resource id) (.resource (object place)))) (prepare place)
      ((store.set (object place) .marker marker).set (object place) .attrBits 0)) :
    Makes owner post (construct .thread (.embedded place) own (fun place _ => place) object marker
      prepare fun _ => id) store := by
  apply makes_of_osOK rfl
  apply Ensures.bind
  show Makes owner _ (pure (some (place, false))) store
  have noBits : (ObjectAttr.embedded place).bits false = 0 := by
    simp [ObjectAttr.bits, ObjectAttr.embedded]
  apply Ensures.pure
  simp only [noBits]
  apply Ensures.bind
  apply makes_store isOwn
  apply Ensures.bind
  apply makes_store isOwn
  apply Ensures.bind
  apply prepares.mono
  intro _ ended holds
  apply Ensures.bind
  apply makes_add isOwn
  exact makes_of_osOK rfl (.pure holds)

theorem makes_storeBits {attrBits : Word} {allocated : Bool} {post : Unit → ObjectStore → Prop}
    (own : object.whole = owner) (holds : ∀ middle, post () middle) :
    Makes owner post (storeBits object attrBits allocated) store :=
  .ite (fun _ => makes_store own (holds _)) fun _ => holds _

theorem makes_osSemaphoreNewPart {semaphore : SemaphoreId} {post : Option SemaphoreId → ObjectStore → Prop}
    (own : (RtosObject.semaphore semaphore).whole = owner)
    (holds : post (some semaphore) (((store.set (.semaphore semaphore) .marker rtosSemaphoreMarker).set
      (.semaphore semaphore) .attrBits 0).enlist (.resource .osResourceSemaphore)
        (.resource (.semaphore semaphore)))) :
    Makes owner post (osSemaphoreNew .thread (.embedded semaphore)) store :=
  makes_constructPart own (.pure holds)

theorem makes_osEventFlagsNewPart {eventflags : EventFlagsId}
    {post : Option EventFlagsId → ObjectStore → Prop}
    (own : (RtosObject.eventFlags eventflags).whole = owner)
    (holds : post (some eventflags) ((((store.set (.eventFlags eventflags) .marker
      rtosEventflagsMarker).set (.eventFlags eventflags) .attrBits 0).set (.eventFlags eventflags)
        .waiters 0).enlist (.resource .osResourceEventFlags) (.resource (.eventFlags eventflags)))) :
    Makes owner post (osEventFlagsNew .thread (.embedded eventflags)) store :=
  makes_constructPart own (makes_store own holds)

def Observes (code : RtosCode Result) : Prop :=
  ∀ owner store (post : Result → ObjectStore → Prop), (∀ result, post result store) →
    Makes owner post code store

section Observes

variable {Other : Type} {code no : RtosCode Result} {context : Context}

theorem Observes.pure (result : Result) : Observes (pure result : RtosCode Result) :=
  fun _ _ _ holds => holds result

theorem Observes.bind {rest : Result → RtosCode Other} (first : Observes code)
    (later : ∀ result, Observes (rest result)) : Observes (code >>= rest) :=
  fun owner store post holds => .bind (first owner store _ fun result => later result owner store post holds)

theorem Observes.ite {condition : Prop} [Decidable condition] (yes : Observes code) (otherwise : Observes no) :
    Observes (if condition then code else no) :=
  fun owner store post holds =>
    .ite (fun _ => yes owner store post holds) fun _ => otherwise owner store post holds

theorem observes_load (object : RtosObject) (field : ObjectField) : Observes (load object field) :=
  fun _ _ _ holds => makes_loadAny fun value _ => holds value

theorem observes_ask (request : ObjectRequest) : Observes (ask request) :=
  fun _ _ _ holds => makes_ask fun value _ => holds value

theorem observes_valid (object : RtosObject) (marker : Word) :
    Observes (osIsResourceValid object marker) :=
  (observes_load _ _).bind fun _ => .pure _

theorem observes_getStateIsError (thread : Word) : Observes (osThreadGetStateIsError context thread) := by
  apply (Observes.pure _).ite
  apply (observes_valid _ _).bind
  intro status
  apply (Observes.pure _).ite
  apply (observes_load _ _).bind
  intro attrBits
  apply (Observes.pure _).ite
  exact (observes_ask _).bind fun _ => .pure _

theorem observes_osThreadGetId : Observes osThreadGetId :=
  (observes_ask _).bind fun _ => (observes_valid _ _).bind fun _ => .pure _

theorem observes_osMutexGetOwner (mutex : MutexId) : Observes (osMutexGetOwner context mutex) := by
  apply (Observes.pure _).ite
  apply (observes_valid _ _).bind
  intro valid
  apply (Observes.pure _).ite
  apply (observes_ask _).bind
  intro value
  exact (Observes.pure _).ite (observes_ask _)

theorem observes_capture (object : RtosObject) (capture : MutexCapture) :
    Observes (osCaptureOwnedRobustMutexes context object capture) := by
  apply (Observes.pure _).ite
  cases object with
  | mutex mutex => exact (observes_osMutexGetOwner _).bind fun _ => .pure _
  | _ => exact .pure _

theorem observes_forEach {Given : Type} {id : OsResourceId}
    {func : RtosObject → Given → RtosCode (Word × Given)}
    (calls : ∀ object given, Observes (func object given)) (given : Given) :
    Observes (osKernelResourceForEach context id func given) := by
  have loop : ∀ nodes given, Observes (forEachResource func nodes given) := by
    intro nodes
    induction nodes with
    | nil => exact fun given => .pure _
    | cons node rest ih =>
        intro given
        cases node with
        | active timer => exact ih given
        | resource object => exact (calls object given).bind fun _ => (Observes.pure _).ite (ih _)
  apply (Observes.pure _).ite
  intro owner store post holds
  apply Ensures.bind
  apply makes_spinLock
  apply Ensures.bind
  apply makes_listForEach
  intro nodes _
  apply Ensures.bind
  apply loop nodes given
  intro result
  exact .bind (makes_spinUnlock (.pure (holds result)))

end Observes

theorem makes_releaseOwned {thread : Word} {mutex : MutexId} {context : Context} {times : Nat}
    {post : Option Word → ObjectStore → Prop} (unfinished : post none store)
    (holds : post (some OsStatus.osOK.code) store) :
    Makes owner post (releaseOwned context thread mutex times) store := by
  induction times with
  | zero => exact unfinished
  | succ times ih =>
      apply Ensures.bind
      apply observes_osMutexGetOwner
      intro found
      apply Ensures.ite
      · exact fun _ => holds
      · intro _
        apply Ensures.bind
        apply makes_ask
        intro status released
        have succeeds : status = OsStatus.osOK.code := released
        rw [if_neg (not_not_intro succeeds)]
        exact ih

theorem makes_releaseCaptured {thread : Word} {mutexes : List MutexId} {context : Context} {times : Nat}
    {post : Option Word → ObjectStore → Prop} (unfinished : post none store)
    (holds : post (some OsStatus.osOK.code) store) :
    Makes owner post (releaseCaptured context thread times mutexes) store := by
  induction mutexes with
  | nil => exact holds
  | cons mutex rest ih =>
      apply Ensures.bind
      apply makes_releaseOwned
      · exact unfinished
      · exact ih

theorem makes_osReleaseRobustMutex {thread : Word} {context : Context} {times rounds : Nat}
    {post : Option Word → ObjectStore → Prop} (unfinished : post none store)
    (holds : post (some OsStatus.osOK.code) store) :
    Makes owner post (osReleaseRobustMutex context thread times rounds) store := by
  induction rounds with
  | zero => exact unfinished
  | succ rounds ih =>
      apply Ensures.bind
      apply observes_forEach observes_capture
      intro (status, capture)
      apply Ensures.ite
      · exact fun _ => unfinished
      · intro _
        apply Ensures.bind
        apply makes_releaseCaptured
        · exact unfinished
        · exact .ite (fun fails => absurd rfl fails) fun _ => .ite (fun _ => ih) fun _ => holds

theorem forEachResource_registered (nodes : List ObjectNode) (sought : RtosObject) :
    forEachResource osKernelResourceRegistered nodes sought =
      pure (if .resource sought ∈ nodes then 1 else OsStatus.osOK.code, sought) := by
  induction nodes with
  | nil => rfl
  | cons node rest ih =>
      cases node with
      | active timer =>
          rw [forEachResource, ih]
          simp
      | resource object =>
          by_cases isIt : object = sought
          · subst isIt
            simp only [List.mem_cons, true_or, if_true]
            show (if (if object = object then (1 : Word) else OsStatus.osOK.code) ≠ OsStatus.osOK.code
              then pure (if object = object then (1 : Word) else OsStatus.osOK.code, object)
              else forEachResource osKernelResourceRegistered rest object) = _
            rw [if_pos rfl]
            rfl
          · show (if (if object = sought then (1 : Word) else OsStatus.osOK.code) ≠ OsStatus.osOK.code
              then pure (if object = sought then (1 : Word) else OsStatus.osOK.code, sought)
              else forEachResource osKernelResourceRegistered rest sought) = _
            rw [if_neg isIt, if_neg (not_not_intro rfl), ih]
            simp [Ne.symm isIt]

theorem makes_isRegistered {id : OsResourceId} {post : OsStatus → ObjectStore → Prop}
    (own : object.whole = owner) (isId : object.resourceId = id)
    (holds : post (if store.registered object then .osOK else .osErrorResource) store) :
    Makes owner post (osKernelResourceIsRegistered .thread id object) store := by
  subst isId
  apply Ensures.bind
  apply makes_of_osOK rfl
  apply Ensures.bind
  apply makes_spinLock
  apply Ensures.bind
  apply makes_listForEach
  intro nodes learns
  rw [forEachResource_registered]
  apply Ensures.bind
  apply Ensures.pure
  apply Ensures.bind
  apply makes_spinUnlock
  apply Ensures.pure
  have known : .resource object ∈ nodes ↔ store.registered object := learns object own
  by_cases isThere : store.registered object
  · rw [if_pos (known.mpr isThere)]
    rw [if_pos isThere] at holds
    exact holds
  · rw [if_neg (known.not.mpr isThere)]
    rw [if_neg isThere] at holds
    exact holds

end Rules

end PicoToolkit.Objects
