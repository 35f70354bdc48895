import PicoToolkit.Cmsis.MessageQueue
import PicoToolkit.Cmsis.PoolConservation

/-!
What the calls of a message queue account for: the values of both semaphores, the lengths of the free
list and of the list of messages, the owner of each block, and every message put in.
-/

namespace PicoToolkit

open Transition Interleaving Stack QueuePlace

/-- What a call has added to the tokens and the free list of the pool, and to the tokens and the list
of the messages. -/
structure Account where
  tokens : Int
  entries : Int
  available : Int
  listed : Int

variable {Content : Type}

namespace QueuePlace

def account : QueuePlace Content → Account
  | .putAlloc _ _ _ place => ⟨AllocPlace.tokens (.inl place), AllocPlace.entries (.inl place), 0, 0⟩
  | .putLoad _ _ _ | .putInsert _ _ _ => ⟨-1, -1, 0, 0⟩
  | .putRelease _ _ _ place => ⟨-1, -1, (incremented (.inl place)).toNat, 1⟩
  | .putDone _ .osOK => ⟨-1, -1, 1, 1⟩
  | .getPop _ => ⟨0, 0, -1, 0⟩
  | .getCopy _ _ _ => ⟨0, 0, -1, -1⟩
  | .getFree _ _ place => ⟨FreePlace.tokens (.inl place), FreePlace.entries (.inl place), -1, -1⟩
  | .getDone _ (some _) => ⟨1, 1, -1, -1⟩
  | .resetCount discarded | .resetAcquire discarded _ | .resetDone discarded _ =>
      ⟨discarded.length, discarded.length, -discarded.length, -discarded.length⟩
  | .resetPop discarded =>
      ⟨discarded.length, discarded.length, -discarded.length - 1, -discarded.length⟩
  | .resetFree discarded _ place =>
      ⟨discarded.length - 1 + FreePlace.tokens (.inl place),
        discarded.length - 1 + FreePlace.entries (.inl place), -discarded.length, -discarded.length⟩
  | _ => ⟨0, 0, 0, 0⟩

def tokens (place : QueuePlace Content) : Int := place.account.tokens
def entries (place : QueuePlace Content) : Int := place.account.entries
def available (place : QueuePlace Content) : Int := place.account.available
def listed (place : QueuePlace Content) : Int := place.account.listed

def inTransit : QueuePlace Content → Option Word
  | .putLoad _ _ block | .putInsert _ _ block | .getCopy _ block _ => some block
  | .getFree _ block (.push _) | .resetFree _ block (.push _) => some block
  | _ => none

def holds (block : Word) (place : QueuePlace Content) : Int :=
  if place.inTransit = some block then 1 else 0

def carries : QueuePlace Content → Option (Word × Message Content)
  | .putInsert message _ block => some (block, message)
  | .getCopy _ block removed => some (block, removed)
  | _ => none

variable [DecidableEq Content]

/-- How often a call has put the message into the list, less how often it has taken it out. -/
def flow (message : Message Content) : QueuePlace Content → Int
  | .putRelease put _ _ _ | .putDone put .osOK => if put = message then 1 else 0
  | .getCopy _ _ got | .getFree got _ _ | .getDone _ (some got) => if got = message then -1 else 0
  | .resetCount discarded | .resetAcquire discarded _ | .resetPop discarded |
    .resetFree discarded _ _ | .resetDone discarded _ => -(discarded.count message : Int)
  | _ => 0

omit [DecidableEq Content] in
def isSound : QueuePlace Content → Bool
  | .putRemove _ _ _ _ | .putFree _ _ _ _ | .getEmpty | .resetEmpty _ => false
  | .getFree _ _ (.remove _) | .resetFree _ _ (.remove _) => false
  | .putLoad _ _ block | .putInsert _ _ block | .getCopy _ block _ | .getFree _ block _
  | .resetFree _ block _ => decide (block ≠ 0)
  | .getDone status (some _) => decide (status = .osOK)
  | _ => true

end QueuePlace

/-- The first of two messages goes before the second: it has the greater priority, or the same and
was inserted before. -/
def QueueData.Before (data : QueueData Content) (first second : Word) : Prop :=
  data.priority second < data.priority first ∨
    data.priority second = data.priority first ∧ data.insertion first < data.insertion second

variable [DecidableEq Content]

structure Accounted (queue : RtosMessageQueue) (free : List Word)
    (shared : Shared Word Word (QueueData Content) (QueuePlace Content)) : Prop where
  threads : Threads shared.data.pool.memory 0 shared.data.pool.freeList free
  tokens : ((shared.memory queue.pool.value).toNat : Int) =
    queue.pool.capacity.toNat + total QueuePlace.tokens shared.places
  entries : (free.length : Int) = queue.pool.capacity.toNat + total QueuePlace.entries shared.places
  available : ((shared.memory queue.value).toNat : Int) = total QueuePlace.available shared.places
  listed : (shared.data.messages.length : Int) = total QueuePlace.listed shared.places
  owned : ∀ block, block ≠ 0 → (free.count block : Int) + shared.data.messages.count block +
    total (QueuePlace.holds block) shared.places = if block ∈ queue.pool.blocks then 1 else 0
  present : ∀ block ∈ shared.data.messages, block ≠ 0
  kept : ∀ message, ((shared.data.messages.map shared.data.message).count message : Int) =
    total (QueuePlace.flow message) shared.places
  carried : ∀ (index : Nat) (place : QueuePlace Content) block message,
    shared.places[index]? = some place → place.carries = some (block, message) →
      shared.data.message block = message
  ordered : shared.data.messages.Pairwise shared.data.Before
  inserted : ∀ block ∈ shared.data.messages, shared.data.insertion block < shared.data.insertions
  sound : ∀ place ∈ shared.places, place.isSound

namespace Accounted

variable {queue : RtosMessageQueue} {free : List Word}
  {shared : Shared Word Word (QueueData Content) (QueuePlace Content)} {index : Nat}
  {place next : QueuePlace Content} {block : Word}

omit [DecidableEq Content] in
theorem tokens_le_entries (place : QueuePlace Content) : place.tokens ≤ place.entries := by
  have frees : ∀ place, FreePlace.tokens (.inl place) ≤ FreePlace.entries (.inl place) := by
    intro place
    rcases place with _ | place | _
    · exact Int.le_refl 0
    · cases place with
      | check | add => exact Int.one_nonneg
      | wake => exact Int.le_refl 1
    · exact Int.one_nonneg
  cases place with
  | putAlloc message timeout context place =>
      cases place with
      | acquire place => exact Int.le_refl 0
      | pop => exact Int.neg_nonpos_of_nonneg Int.one_nonneg
  | getFree message block place => exact frees place
  | resetFree discarded block place => exact Int.add_le_add_left (frees place) _
  | putDone message status =>
      cases status with
      | _ => exact Int.le_refl _
  | getDone status message =>
      cases message with
      | _ => exact Int.le_refl _
  | _ => exact Int.le_refl _

omit [DecidableEq Content] in
theorem available_le_listed (place : QueuePlace Content) : place.available ≤ place.listed := by
  cases place with
  | putRelease message context block place =>
      cases place with
      | check | add => exact Int.one_nonneg
      | wake => exact Int.le_refl 1
  | getPop context => exact Int.neg_nonpos_of_nonneg Int.one_nonneg
  | resetPop discarded => exact Int.sub_le_self _ Int.one_nonneg
  | putDone message status =>
      cases status with
      | _ => exact Int.le_refl _
  | getDone status message =>
      cases message with
      | _ => exact Int.le_refl _
  | _ => exact Int.le_refl _

omit [DecidableEq Content] in
theorem inTransit_eq (place : QueuePlace Content) :
    (place.inTransit.isSome.toNat : Int) = -place.entries - place.listed := by
  have frees : ∀ place, FreePlace.entries (.inl place) = 0 ∨ FreePlace.entries (.inl place) = 1 := by
    intro place
    rcases place with _ | _ | _
    · exact Or.inl rfl
    · exact Or.inr rfl
    · exact Or.inr rfl
  cases place with
  | getFree message block place =>
      cases place with
      | _ => rfl
  | resetFree discarded block place =>
      cases place with
      | _ =>
          simp only [inTransit, QueuePlace.entries, QueuePlace.listed, account, FreePlace.entries,
            Option.isSome_some, Option.isSome_none, Bool.toNat_true, Bool.toNat_false]
          omega
  | putDone message status =>
      cases status with
      | _ => rfl
  | getDone status message =>
      cases message with
      | _ => rfl
  | resetCount | resetAcquire | resetPop | resetDone =>
      simp only [inTransit, QueuePlace.entries, QueuePlace.listed, account, Option.isSome_none,
        Bool.toNat_false]
      omega
  | _ => rfl

theorem length_add (accounted : Accounted queue free shared) :
    shared.data.messages.length + free.length +
        shared.places.countP (fun place => place.inTransit.isSome) =
      queue.pool.capacity.toNat := by
  have moving : (shared.places.countP (fun place => place.inTransit.isSome) : Int) =
      total (fun place => -place.entries - place.listed) shared.places := by
    rw [← total_toNat]
    exact total_congr fun place _ => inTransit_eq place
  have split : total (fun place : QueuePlace Content => -place.entries - place.listed)
      shared.places = -total QueuePlace.entries shared.places -
        total QueuePlace.listed shared.places := by
    rw [total_sub, total_neg]
  have entries := accounted.entries
  have listed := accounted.listed
  omega

omit [DecidableEq Content] in
theorem holds_nonneg (block : Word) (place : QueuePlace Content) : 0 ≤ place.holds block := by
  unfold QueuePlace.holds
  split
  · exact Int.one_nonneg
  · exact Int.le_refl 0

theorem tokens_le (accounted : Accounted queue free shared)
    (found : shared.places[index]? = some place) :
    (shared.memory queue.pool.value).toNat + (place.entries - place.tokens) ≤ free.length := by
  have ahead := @le_total _ (fun place : QueuePlace Content => place.entries - place.tokens)
    shared.places (fun place => by
      have least := tokens_le_entries place
      omega) index place found
  rw [total_sub] at ahead
  have tokens := accounted.tokens
  have entries := accounted.entries
  omega

theorem available_le (accounted : Accounted queue free shared)
    (found : shared.places[index]? = some place) :
    (shared.memory queue.value).toNat + (place.listed - place.available) ≤
      shared.data.messages.length := by
  have ahead := @le_total _ (fun place : QueuePlace Content => place.listed - place.available)
    shared.places (fun place => by
      have least := available_le_listed place
      omega) index place found
  rw [total_sub] at ahead
  have available := accounted.available
  have listed := accounted.listed
  omega

theorem alone (accounted : Accounted queue free shared)
    (found : shared.places[index]? = some place) (moving : place.inTransit = some block)
    (positive : block ≠ 0) :
    block ∈ queue.pool.blocks ∧ block ∉ free ∧ block ∉ shared.data.messages ∧
      total (QueuePlace.holds block) shared.places = 1 := by
  have own : place.holds block ≤ total (QueuePlace.holds block) shared.places :=
    le_total (holds_nonneg block) found
  have owned := accounted.owned block positive
  have isOne : place.holds block = 1 := if_pos moving
  rw [← List.count_eq_zero, ← List.count_eq_zero]
  split at owned
  · rename_i inside
    exact ⟨inside, by omega, by omega, by omega⟩
  · omega

theorem apart (accounted : Accounted queue free shared)
    (found : shared.places[index]? = some place) (moving : place.inTransit = some block)
    (positive : block ≠ 0) {other : Nat} {elsewhere : QueuePlace Content} (different : other ≠ index)
    (foundOther : shared.places[other]? = some elsewhere) : elsewhere.inTransit ≠ some block := by
  intro movingOther
  obtain ⟨_, _, _, once⟩ := accounted.alone found moving positive
  have both := @add_le_total _ _ shared.places (holds_nonneg block) _ _ _ _ different foundOther found
  have first : place.holds block = 1 := if_pos moving
  have second : elsewhere.holds block = 1 := if_pos movingOther
  omega

theorem mem_messages (accounted : Accounted queue free shared)
    (member : block ∈ shared.data.messages) :
    block ≠ 0 ∧ block ∈ queue.pool.blocks ∧ shared.data.messages.count block = 1 ∧
      ∀ place ∈ shared.places, place.inTransit ≠ some block := by
  have positive := accounted.present block member
  have counted := List.count_pos_iff.mpr member
  have owned := accounted.owned block positive
  have least := @total_nonneg _ _ shared.places (holds_nonneg block)
  split at owned
  · rename_i inside
    refine ⟨positive, inside, by omega, ?_⟩
    intro place at_ moving
    obtain ⟨index, found⟩ := List.mem_iff_getElem?.mp at_
    have own := @le_total _ _ shared.places (holds_nonneg block) index place found
    have isOne : place.holds block = 1 := if_pos moving
    omega
  · omega

omit [DecidableEq Content] in
theorem inTransit_of_carries {message : Message Content}
    (carries : place.carries = some (block, message)) : place.inTransit = some block := by
  cases place with
  | putInsert | getCopy =>
      cases carries
      rfl
  | _ => cases carries

/-- A call that moves changes what its own places account for; it may write to a block only if no
other call has that block. -/
theorem set {memory : Word → Word} {data : QueueData Content} {after : List Word}
    (accounted : Accounted queue free shared) (found : shared.places[index]? = some place)
    (threads : Threads data.pool.memory 0 data.pool.freeList after)
    (tokens : ((memory queue.pool.value).toNat : Int) =
      (shared.memory queue.pool.value).toNat + next.tokens - place.tokens)
    (entries : (after.length : Int) = free.length + next.entries - place.entries)
    (available : ((memory queue.value).toNat : Int) =
      (shared.memory queue.value).toNat + next.available - place.available)
    (listed : (data.messages.length : Int) =
      shared.data.messages.length + next.listed - place.listed)
    (owned : ∀ block, block ≠ 0 →
      (after.count block : Int) + data.messages.count block + next.holds block =
        free.count block + shared.data.messages.count block + place.holds block)
    (present : ∀ block ∈ data.messages, block ≠ 0)
    (kept : ∀ message, ((data.messages.map data.message).count message : Int) =
      (shared.data.messages.map shared.data.message).count message + next.flow message -
        place.flow message)
    (carried : ∀ block message, next.carries = some (block, message) → data.message block = message)
    (others : ∀ other elsewhere block, other ≠ index → shared.places[other]? = some elsewhere →
      elsewhere.inTransit = some block → data.message block = shared.data.message block)
    (ordered : data.messages.Pairwise data.Before)
    (inserted : ∀ block ∈ data.messages, data.insertion block < data.insertions)
    (sound : next.isSound) :
    Accounted queue after ⟨memory, data, shared.places.set index next⟩ := by
  refine ⟨threads, ?_, ?_, ?_, ?_, ?_, present, ?_, ?_, ordered, inserted, ?_⟩
  · rw [total_set found, tokens, accounted.tokens]
    omega
  · rw [total_set found, entries, accounted.entries]
    omega
  · rw [total_set found, available, accounted.available]
    omega
  · rw [total_set found, listed, accounted.listed]
    omega
  · intro block positive
    have change := owned block positive
    simp only [total_set found, ← accounted.owned block positive]
    omega
  · intro message
    rw [total_set found, kept, accounted.kept]
    omega
  · intro other elsewhere block message foundOther carries
    by_cases same : other = index
    · subst same
      have bound : other < shared.places.length := (List.getElem?_eq_some_iff.mp found).1
      rw [List.getElem?_set_self bound] at foundOther
      obtain rfl := Option.some_inj.mp foundOther
      exact carried block message carries
    · rw [List.getElem?_set_ne (Ne.symm same)] at foundOther
      rw [others other elsewhere block same foundOther (inTransit_of_carries carries)]
      exact accounted.carried other elsewhere block message foundOther carries
  · intro other member
    rcases List.mem_or_eq_of_mem_set member with old | rfl
    · exact accounted.sound other old
    · exact sound

end Accounted

/-- A call with no block in transit, what it accounts for, and what it has put into the list. -/
structure Settled (place : QueuePlace Content) (account : Account)
    (flow : Message Content → Int) : Prop where
  account : place.account = account
  transit : place.inTransit = none
  flow : ∀ message, place.flow message = flow message
  sound : place.isSound

section Words

variable {queue : RtosMessageQueue} {free : List Word}
  {shared : Shared Word Word (QueueData Content) (QueuePlace Content)} {index : Nat}
  {place next : QueuePlace Content} {block : Word} {answer : Result}

theorem Accounted.advance {memory : Word → Word} {account after : Account}
    {flow : Message Content → Int} (accounted : Accounted queue free shared)
    (found : shared.places[index]? = some place) (settled : Settled place account flow)
    (settledNext : Settled next after flow)
    (tokens : ((memory queue.pool.value).toNat : Int) =
      (shared.memory queue.pool.value).toNat + after.tokens - account.tokens)
    (available : ((memory queue.value).toNat : Int) =
      (shared.memory queue.value).toNat + after.available - account.available)
    (entries : after.entries = account.entries) (listed : after.listed = account.listed) :
    Accounted queue free ⟨memory, shared.data, shared.places.set index next⟩ := by
  obtain ⟨isAccount, transit, isFlow, _⟩ := settled
  obtain ⟨isAfter, transitNext, isFlowNext, sound⟩ := settledNext
  have changes : next.tokens = after.tokens ∧ next.available = after.available ∧
      next.entries = place.entries ∧ next.listed = place.listed := by
    refine ⟨congrArg Account.tokens isAfter, congrArg Account.available isAfter, ?_, ?_⟩
    · rw [QueuePlace.entries, QueuePlace.entries, isAfter, isAccount, entries]
    · rw [QueuePlace.listed, QueuePlace.listed, isAfter, isAccount, listed]
  have before : place.tokens = account.tokens ∧ place.available = account.available :=
    ⟨congrArg Account.tokens isAccount, congrArg Account.available isAccount⟩
  refine accounted.set found accounted.threads ?_ ?_ ?_ ?_ ?_ accounted.present ?_ ?_
    (fun _ _ _ _ _ _ => rfl) accounted.ordered accounted.inserted sound
  · omega
  · omega
  · omega
  · omega
  · intro block _
    rw [QueuePlace.holds, QueuePlace.holds, transit, transitNext]
  · intro message
    rw [isFlow, isFlowNext]
    omega
  · intro block message carries
    rw [Accounted.inTransit_of_carries carries] at transitNext
    cases transitNext

theorem Accounted.stay {account : Account} {flow : Message Content → Int}
    (accounted : Accounted queue free shared) (found : shared.places[index]? = some place)
    (settled : Settled place account flow) (settledNext : Settled next account flow) :
    Accounted queue free { shared with places := shared.places.set index next } := by
  refine accounted.advance found settled settledNext ?_ ?_ rfl rfl
  · omega
  · omega

theorem settled_afterAlloc (put : Message Content) (timeout : Word) (context : Context)
    (result : AcquirePlace ⊕ OsStatus) :
    Settled (afterAlloc put timeout context (AllocPlace.afterAcquire result))
      ⟨-(decremented result).toNat, 0, 0, 0⟩ fun _ => 0 := by
  rcases result with place | status
  · exact ⟨rfl, rfl, fun _ => rfl, rfl⟩
  · cases status with
    | osOK => exact ⟨rfl, rfl, fun _ => rfl, rfl⟩
    | _ =>
        simp only [AllocPlace.afterAcquire, afterAlloc, if_true]
        split
        · exact ⟨rfl, rfl, fun _ => rfl, rfl⟩
        · exact ⟨rfl, rfl, fun _ => rfl, rfl⟩

theorem settled_afterPutRelease (put : Message Content) (context : Context) (block : Word)
    {result : ReleasePlace ⊕ OsStatus} (succeeds : ∀ error, result = .inr error → error = .osOK) :
    Settled (afterPutRelease put context block result) ⟨-1, -1, (incremented result).toNat, 1⟩
      fun message => if put = message then 1 else 0 := by
  rcases result with place | status
  · exact ⟨rfl, rfl, fun _ => rfl, rfl⟩
  · obtain rfl := succeeds status rfl
    exact ⟨rfl, rfl, fun _ => rfl, rfl⟩

theorem settled_afterGetAcquire (timeout : Word) (context : Context)
    (result : AcquirePlace ⊕ OsStatus) :
    Settled (afterGetAcquire timeout context result : QueuePlace Content)
      ⟨0, 0, -(decremented result).toNat, 0⟩ fun _ => 0 := by
  rcases result with place | status
  · exact ⟨rfl, rfl, fun _ => rfl, rfl⟩
  · cases status with
    | _ => exact ⟨rfl, rfl, fun _ => rfl, rfl⟩

theorem settled_afterGetFree (got : Message Content) (positive : block ≠ 0)
    {result : ReleasePlace ⊕ OsStatus} (succeeds : ∀ error, result = .inr error → error = .osOK) :
    Settled (afterGetFree got block (FreePlace.afterRelease result))
      ⟨(incremented result).toNat, 1, -1, -1⟩ fun message => if got = message then -1 else 0 := by
  rcases result with place | status
  · exact ⟨rfl, rfl, fun _ => rfl, decide_eq_true positive⟩
  · obtain rfl := succeeds status rfl
    exact ⟨rfl, rfl, fun _ => rfl, rfl⟩

theorem settled_afterResetAcquire (discarded : List (Message Content))
    (result : AcquirePlace ⊕ OsStatus) :
    Settled (afterResetAcquire discarded result)
      ⟨discarded.length, discarded.length, -discarded.length - (decremented result).toNat,
        -discarded.length⟩ fun message => -(discarded.count message : Int) := by
  rcases result with place | status
  · exact ⟨by simp [afterResetAcquire, QueuePlace.account, decremented], rfl, fun _ => rfl, rfl⟩
  · cases status with
    | osOK => exact ⟨rfl, rfl, fun _ => rfl, rfl⟩
    | _ => exact ⟨by simp [afterResetAcquire, QueuePlace.account, decremented], rfl, fun _ => rfl, rfl⟩

theorem settled_afterResetFree (discarded : List (Message Content)) (positive : block ≠ 0)
    {result : ReleasePlace ⊕ OsStatus} (succeeds : ∀ error, result = .inr error → error = .osOK) :
    Settled (afterResetFree discarded block (FreePlace.afterRelease result))
      ⟨discarded.length - 1 + (incremented result).toNat, discarded.length, -discarded.length,
        -discarded.length⟩ fun message => -(discarded.count message : Int) := by
  rcases result with place | status
  · refine ⟨?_, rfl, fun _ => rfl, decide_eq_true positive⟩
    simp [afterResetFree, FreePlace.afterRelease, QueuePlace.account, FreePlace.tokens,
      FreePlace.entries]
  · obtain rfl := succeeds status rfl
    refine ⟨?_, rfl, fun _ => rfl, rfl⟩
    simp [afterResetFree, FreePlace.afterRelease, QueuePlace.account, incremented]

omit [DecidableEq Content] in
theorem ofPool_acquire {Place : Type} (semaphore : RtosSemaphore) (timeout : Word)
    (place : AcquirePlace) (outer : AcquirePlace ⊕ OsStatus → Place) :
    (ofPool ((osSemaphoreAcquire semaphore timeout place).map outer) :
      ThreadOp (QueueData Content) Place) = (osSemaphoreAcquire semaphore timeout place).map outer := by
  cases place with
  | _ => rfl

omit [DecidableEq Content] in
theorem ofPool_release {Place : Type} (semaphore : RtosSemaphore) (place : ReleasePlace)
    (outer : ReleasePlace ⊕ OsStatus → Place) :
    (ofPool ((osSemaphoreRelease semaphore place).map outer) :
      ThreadOp (QueueData Content) Place) = (osSemaphoreRelease semaphore place).map outer := by
  cases place with
  | _ => rfl

namespace Accounted

variable {put got : Message Content} {discarded : List (Message Content)} {timeout : Word}
  {context : Context}

theorem putAcquire {acquiring : AcquirePlace} (accounted : Accounted queue free shared)
    (found : shared.places[index]? = some (.putAlloc put timeout context (.acquire acquiring))) :
    Accounted queue free (Program.perform shared index answer
      ((ofPool (osMemoryPoolAlloc queue.pool timeout (.acquire acquiring))).map
        (afterAlloc put timeout context))) := by
  rw [osMemoryPoolAlloc, ofPool_acquire, Op.map_map]
  obtain ⟨result, memory, performs, value, others⟩ := @perform_osSemaphoreAcquire _ _
    queue.pool.semaphore shared index answer timeout acquiring
    (fun result => afterAlloc put timeout context (AllocPlace.afterAcquire result))
  rw [performs]
  have before : Settled (.putAlloc put timeout context (.acquire acquiring)) ⟨0, 0, 0, 0⟩
      fun _ => 0 := ⟨rfl, rfl, fun _ => rfl, rfl⟩
  refine accounted.advance found before (settled_afterAlloc put timeout context result) ?_ ?_ rfl rfl
  · simp only
    rw [show queue.pool.value = queue.pool.semaphore.value from rfl, value]
    omega
  · simp only [others queue.value queue.distinct]
    omega

theorem getAcquire {acquiring : AcquirePlace} (accounted : Accounted queue free shared)
    (found : shared.places[index]? = some (.getAcquire timeout context acquiring)) :
    Accounted queue free (Program.perform shared index answer
      ((osSemaphoreAcquire queue.dataAvailable timeout acquiring).map
        (afterGetAcquire timeout context))) := by
  obtain ⟨result, memory, performs, value, others⟩ := @perform_osSemaphoreAcquire _ _
    queue.dataAvailable shared index answer timeout acquiring (afterGetAcquire timeout context)
  rw [performs]
  have before : Settled (.getAcquire timeout context acquiring : QueuePlace Content) ⟨0, 0, 0, 0⟩
      fun _ => 0 := ⟨rfl, rfl, fun _ => rfl, rfl⟩
  refine accounted.advance found before (settled_afterGetAcquire timeout context result) ?_ ?_ rfl rfl
  · simp only [others queue.pool.value queue.distinct.symm]
    omega
  · simp only
    rw [show queue.value = queue.dataAvailable.value from rfl, value]
    omega

theorem resetAcquire {acquiring : AcquirePlace} (accounted : Accounted queue free shared)
    (found : shared.places[index]? = some (.resetAcquire discarded acquiring)) :
    Accounted queue free (Program.perform shared index answer
      ((osSemaphoreAcquire queue.dataAvailable timeout acquiring).map
        (afterResetAcquire discarded))) := by
  obtain ⟨result, memory, performs, value, others⟩ := @perform_osSemaphoreAcquire _ _
    queue.dataAvailable shared index answer timeout acquiring (afterResetAcquire discarded)
  rw [performs]
  have before : Settled (.resetAcquire discarded acquiring)
      ⟨discarded.length, discarded.length, -discarded.length, -discarded.length⟩
      fun message => -(discarded.count message : Int) := ⟨rfl, rfl, fun _ => rfl, rfl⟩
  refine accounted.advance found before (settled_afterResetAcquire discarded result) ?_ ?_ rfl rfl
  · simp only [others queue.pool.value queue.distinct.symm]
    omega
  · simp only
    rw [show queue.value = queue.dataAvailable.value from rfl, value]
    omega

theorem tokens_lt (accounted : Accounted queue free shared)
    (found : shared.places[index]? = some place) (ahead : place.tokens < place.entries) :
    shared.memory queue.pool.value < queue.pool.capacity := by
  have bound := accounted.tokens_le found
  have most := accounted.length_add
  rw [BitVec.lt_def]
  omega

theorem available_lt (accounted : Accounted queue free shared)
    (found : shared.places[index]? = some place) (ahead : place.available < place.listed) :
    shared.memory queue.value < queue.pool.capacity := by
  have bound := accounted.available_le found
  have most := accounted.length_add
  rw [BitVec.lt_def]
  omega

theorem putRelease {releasing : ReleasePlace} (accounted : Accounted queue free shared)
    (found : shared.places[index]? = some (.putRelease put context block releasing)) :
    Accounted queue free (Program.perform shared index answer
      ((osSemaphoreRelease queue.dataAvailable releasing).map
        (afterPutRelease put context block))) := by
  have fits : releasing ≠ .wake → shared.memory queue.value < queue.pool.capacity := by
    intro before
    refine accounted.available_lt found ?_
    cases releasing with
    | check | add => exact Int.one_pos
    | wake => exact (before rfl).elim
  obtain ⟨result, memory, performs, value, others, _, succeeds⟩ := @perform_osSemaphoreRelease _ _
    queue.dataAvailable shared index answer releasing (afterPutRelease put context block)
    (fun adds => fits (by rw [adds]; decide))
  rw [performs]
  have before : Settled (.putRelease put context block releasing)
      ⟨-1, -1, (incremented (.inl releasing)).toNat, 1⟩
      fun message => if put = message then 1 else 0 := ⟨rfl, rfl, fun _ => rfl, rfl⟩
  refine accounted.advance found before
    (settled_afterPutRelease put context block (succeeds fits)) ?_ ?_ rfl rfl
  · simp only [others queue.pool.value queue.distinct.symm]
    omega
  · exact value

theorem getRelease {releasing : ReleasePlace} (accounted : Accounted queue free shared)
    (found : shared.places[index]? = some (.getFree got block (.release releasing))) :
    Accounted queue free (Program.perform shared index answer
      ((ofPool (osMemoryPoolFree queue.pool block (.release releasing))).map
        (afterGetFree got block))) := by
  have fits : releasing ≠ .wake → shared.memory queue.pool.value < queue.pool.capacity := by
    intro before
    refine accounted.tokens_lt found ?_
    cases releasing with
    | check | add => exact Int.one_pos
    | wake => exact (before rfl).elim
  have positive : block ≠ 0 := of_decide_eq_true (accounted.sound _ (List.mem_of_getElem? found))
  rw [osMemoryPoolFree, ofPool_release, Op.map_map]
  obtain ⟨result, memory, performs, value, others, _, succeeds⟩ := @perform_osSemaphoreRelease _ _
    queue.pool.semaphore shared index answer releasing
    (fun result => afterGetFree got block (FreePlace.afterRelease result))
    (fun adds => fits (by rw [adds]; decide))
  rw [performs]
  have before : Settled (.getFree got block (.release releasing))
      ⟨(incremented (.inl releasing)).toNat, 1, -1, -1⟩
      fun message => if got = message then -1 else 0 :=
    ⟨rfl, rfl, fun _ => rfl, decide_eq_true positive⟩
  refine accounted.advance found before (settled_afterGetFree got positive (succeeds fits)) ?_ ?_
    rfl rfl
  · exact value
  · simp only [others queue.value queue.distinct]
    omega

theorem resetRelease {releasing : ReleasePlace} (accounted : Accounted queue free shared)
    (found : shared.places[index]? = some (.resetFree discarded block (.release releasing))) :
    Accounted queue free (Program.perform shared index answer
      ((ofPool (osMemoryPoolFree queue.pool block (.release releasing))).map
        (afterResetFree discarded block))) := by
  have fits : releasing ≠ .wake → shared.memory queue.pool.value < queue.pool.capacity := by
    intro before
    refine accounted.tokens_lt found ?_
    cases releasing with
    | check | add =>
        simp only [QueuePlace.tokens, QueuePlace.entries, account, FreePlace.tokens,
          FreePlace.entries, incremented, Bool.toNat_false]
        omega
    | wake => exact (before rfl).elim
  have positive : block ≠ 0 := of_decide_eq_true (accounted.sound _ (List.mem_of_getElem? found))
  rw [osMemoryPoolFree, ofPool_release, Op.map_map]
  obtain ⟨result, memory, performs, value, others, _, succeeds⟩ := @perform_osSemaphoreRelease _ _
    queue.pool.semaphore shared index answer releasing
    (fun result => afterResetFree discarded block (FreePlace.afterRelease result))
    (fun adds => fits (by rw [adds]; decide))
  rw [performs]
  have before : Settled (.resetFree discarded block (.release releasing))
      ⟨discarded.length - 1 + (incremented (.inl releasing)).toNat, discarded.length,
        -discarded.length, -discarded.length⟩
      fun message => -(discarded.count message : Int) :=
    ⟨by simp [account, FreePlace.tokens, FreePlace.entries], rfl, fun _ => rfl,
      decide_eq_true positive⟩
  refine accounted.advance found before (settled_afterResetFree discarded positive (succeeds fits))
    ?_ ?_ rfl rfl
  · simp only
    rw [show queue.pool.value = queue.pool.semaphore.value from rfl, value]
    omega
  · simp only [others queue.value queue.distinct]
    omega

theorem resetCount (accounted : Accounted queue free shared)
    (found : shared.places[index]? = some (.resetCount discarded)) :
    Accounted queue free (Program.perform shared index answer
      (.word queue.value fun value => (value,
        if 0 < osSemaphoreGetCount queue.dataAvailable .thread value then
          afterResetAcquire discarded
            (osSemaphoreAcquireStart queue.dataAvailable osWaitForever .thread)
        else .resetDone discarded .osOK) : ThreadOp (QueueData Content) (QueuePlace Content))) := by
  simp only [Program.perform, Function.update_eq_self]
  have settled : Settled (.resetCount discarded)
      ⟨discarded.length, discarded.length, -discarded.length, -discarded.length⟩
      fun message => -(discarded.count message : Int) := ⟨rfl, rfl, fun _ => rfl, rfl⟩
  split
  · exact accounted.stay found settled ⟨rfl, rfl, fun _ => rfl, rfl⟩
  · exact accounted.stay found settled ⟨rfl, rfl, fun _ => rfl, rfl⟩

omit [DecidableEq Content] in
theorem message_congr {data other : QueueData Content}
    (memory : other.pool.memory block = data.pool.memory block)
    (content : other.content block = data.content block) :
    other.message block = data.message block := by
  rw [QueueData.message, QueueData.message, QueueData.priority, QueueData.priority, memory, content]

omit [DecidableEq Content] in
theorem ordered_congr {data other : QueueData Content} {messages : List Word}
    (ordered : messages.Pairwise data.Before) (insertion : other.insertion = data.insertion)
    (memory : ∀ block ∈ messages, other.pool.memory block = data.pool.memory block) :
    messages.Pairwise other.Before := by
  refine ordered.imp_of_mem fun {first second} member memberSecond before => ?_
  rw [QueueData.Before, QueueData.priority, QueueData.priority, memory first member,
    memory second memberSecond, insertion]
  exact before

theorem putPop (accounted : Accounted queue free shared)
    (found : shared.places[index]? = some (.putAlloc put timeout context .pop)) :
    Accounted queue free.tail (Program.perform shared index answer
      ((ofPool (osMemoryPoolAlloc queue.pool timeout .pop)).map (afterAlloc put timeout context))) := by
  have bound := accounted.tokens_le found
  have threads := accounted.threads
  cases free with
  | nil =>
      simp only [QueuePlace.entries, QueuePlace.tokens, account, AllocPlace.entries,
        AllocPlace.tokens, List.length_nil] at bound
      omega
  | cons first rest =>
      have positive := threads.ne_null (List.mem_cons_self)
      obtain ⟨isFirst, _, threads⟩ := threads
      have next : afterAlloc put timeout context (.inr shared.data.pool.freeList) =
          .putLoad put context first := by
        rw [isFirst, afterAlloc, if_neg positive]
      simp only [osMemoryPoolAlloc, ofPool, Op.within, Op.map, Program.perform, next]
      refine accounted.set found ?_ ?_ ?_ ?_ ?_ ?_ accounted.present ?_ ?_ (fun _ _ _ _ _ _ => rfl)
        accounted.ordered accounted.inserted (decide_eq_true positive)
      · rw [← isFirst] at threads
        exact threads
      · simp only [QueuePlace.tokens, account, AllocPlace.tokens]
        omega
      · simp only [QueuePlace.entries, account, AllocPlace.entries, List.tail_cons,
          List.length_cons]
        omega
      · simp only [QueuePlace.available, account]
        omega
      · simp only [QueuePlace.listed, account, QueueData.withPool]
        omega
      · intro block _
        simp only [QueuePlace.holds, inTransit, QueueData.withPool, List.tail_cons, List.count_cons,
          beq_iff_eq, Option.some.injEq, reduceCtorEq, if_false]
        split
        · simp only [Nat.cast_add, Nat.cast_one]
          omega
        · simp only [Nat.add_zero]
      · intro message
        change ((shared.data.messages.map shared.data.message).count message : Int) =
          _ + (0 : Int) - 0
        omega
      · intro block message carries
        cases carries

theorem putLoad (accounted : Accounted queue free shared)
    (found : shared.places[index]? = some (.putLoad put context block)) :
    Accounted queue free (Program.perform shared index answer
      (.data fun data => (data.load block put, .putInsert put context block) :
        ThreadOp (QueueData Content) (QueuePlace Content))) := by
  have positive : block ≠ 0 := of_decide_eq_true (accounted.sound _ (List.mem_of_getElem? found))
  obtain ⟨_, notFree, notListed, _⟩ := accounted.alone found rfl positive
  have elsewhere : ∀ other, other ≠ block →
      (shared.data.load block put).message other = shared.data.message other := fun other different =>
    message_congr (Function.update_of_ne different _ _) (Function.update_of_ne different _ _)
  have inside : (shared.data.load block put).message block = put := by
    simp [QueueData.message, QueueData.priority, QueueData.load]
  simp only [Program.perform]
  refine accounted.set found (accounted.threads.update notFree _) ?_ ?_ ?_ ?_ ?_ accounted.present
    ?_ ?_ ?_ ?_ accounted.inserted (decide_eq_true positive)
  · change _ = _ + (-1 : Int) - -1
    omega
  · change _ = _ + (-1 : Int) - -1
    omega
  · change _ = _ + (0 : Int) - 0
    omega
  · change (shared.data.messages.length : Int) = _ + (0 : Int) - 0
    omega
  · exact fun _ _ => rfl
  · intro message
    have same : (shared.data.load block put).messages.map (shared.data.load block put).message =
        shared.data.messages.map shared.data.message := by
      refine List.map_congr_left fun other member => elsewhere other ?_
      rintro rfl
      exact notListed member
    rw [same]
    change _ = _ + (0 : Int) - 0
    omega
  · intro other message carries
    cases carries
    exact inside
  · intro other place moved different foundOther moving
    refine elsewhere moved ?_
    rintro rfl
    exact accounted.apart found rfl positive different foundOther moving
  · refine ordered_congr accounted.ordered rfl fun other member => Function.update_of_ne ?_ _ _
    rintro rfl
    exact notListed member

omit [DecidableEq Content] in
theorem osSemaphoreReleaseStart_queue (queue : RtosMessageQueue) (context : Context) :
    osSemaphoreReleaseStart queue.dataAvailable context = .inl .check := by
  cases context with
  | _ => rfl

omit [DecidableEq Content] in
theorem ordered_insert {data : QueueData Content} {messages : List Word}
    (ordered : messages.Pairwise data.Before)
    (earlier : ∀ other ∈ messages, data.insertion other < data.insertion block) :
    (messages.orderedInsert (fun message current => data.priority message > data.priority current)
      block).Pairwise data.Before := by
  induction messages with
  | nil => simp
  | cons first rest ih =>
      obtain ⟨beforeRest, ordered⟩ := List.pairwise_cons.mp ordered
      rw [List.orderedInsert]
      by_cases above : data.priority block > data.priority first
      · rw [if_pos above]
        refine List.pairwise_cons.mpr ⟨?_, List.pairwise_cons.mpr ⟨beforeRest, ordered⟩⟩
        intro other member
        rcases List.mem_cons.mp member with rfl | later
        · exact Or.inl above
        · rcases beforeRest other later with lower | ⟨same, _⟩
          · exact Or.inl (BitVec.lt_trans lower above)
          · rw [QueueData.Before, same]
            exact Or.inl above
      · rw [if_neg above]
        refine List.pairwise_cons.mpr ⟨?_, ih ordered fun other member =>
          earlier other (List.mem_cons_of_mem first member)⟩
        intro other member
        rcases List.mem_cons.mp ((List.perm_orderedInsert _ block rest).mem_iff.mp member) with
          rfl | later
        · have notAbove := BitVec.not_lt.mp above
          by_cases same : data.priority other = data.priority first
          · exact Or.inr ⟨same, earlier first List.mem_cons_self⟩
          · exact Or.inl (by bv_omega)
        · exact beforeRest other later

theorem putInsert (accounted : Accounted queue free shared)
    (found : shared.places[index]? = some (.putInsert put context block)) :
    Accounted queue free (Program.perform shared index answer
      (.data fun data => (data.insert block, afterPutRelease put context block
        (osSemaphoreReleaseStart queue.dataAvailable context)) :
        ThreadOp (QueueData Content) (QueuePlace Content))) := by
  have positive : block ≠ 0 := of_decide_eq_true (accounted.sound _ (List.mem_of_getElem? found))
  obtain ⟨_, _, notListed, _⟩ := accounted.alone found rfl positive
  have inside : shared.data.message block = put := accounted.carried index _ block put found rfl
  have perm : (shared.data.insert block).messages.Perm (block :: shared.data.messages) :=
    List.perm_orderedInsert _ block _
  have numbered : ∀ other ∈ shared.data.messages,
      (shared.data.insert block).insertion other = shared.data.insertion other := by
    intro other member
    refine Function.update_of_ne ?_ _ _
    rintro rfl
    exact notListed member
  have own : (shared.data.insert block).insertion block = shared.data.insertions :=
    Function.update_self _ _ _
  simp only [Program.perform, osSemaphoreReleaseStart_queue, afterPutRelease]
  refine accounted.set found accounted.threads ?_ ?_ ?_ ?_ ?_ ?_ ?_ ?_ (fun _ _ _ _ _ _ => rfl) ?_ ?_
    rfl
  · change _ = _ + (-1 : Int) - -1
    omega
  · change _ = _ + (-1 : Int) - -1
    omega
  · change _ = _ + (0 : Int) - 0
    omega
  · rw [perm.length_eq, List.length_cons]
    change _ = _ + (1 : Int) - 0
    omega
  · intro other _
    rw [perm.count_eq, List.count_cons]
    simp only [QueuePlace.holds, inTransit, beq_iff_eq, Option.some.injEq, reduceCtorEq, if_false]
    split
    · simp only [Nat.cast_add, Nat.cast_one]
      omega
    · simp only [Nat.add_zero]
  · intro other member
    rcases List.mem_cons.mp (perm.mem_iff.mp member) with rfl | old
    · exact positive
    · exact accounted.present other old
  · intro message
    have counts : ((shared.data.insert block).messages.map
        (shared.data.insert block).message).count message =
          (shared.data.message block :: shared.data.messages.map shared.data.message).count message :=
      (perm.map shared.data.message).count_eq message
    rw [counts, inside, List.count_cons]
    simp only [QueuePlace.flow, beq_iff_eq]
    split
    · simp only [Nat.cast_add, Nat.cast_one]
      omega
    · simp only [Nat.add_zero]
      omega
  · intro other message carries
    cases carries
  · refine ordered_insert ?_ ?_
    · refine accounted.ordered.imp_of_mem fun {first second} member memberSecond before => ?_
      rw [QueueData.Before, numbered first member, numbered second memberSecond]
      exact before
    · intro other member
      rw [numbered other member, own]
      exact accounted.inserted other member
  · intro other member
    change _ < shared.data.insertions + 1
    rcases List.mem_cons.mp (perm.mem_iff.mp member) with rfl | old
    · rw [own]
      exact Nat.lt_succ_self _
    · rw [numbered other old]
      exact Nat.lt_succ_of_lt (accounted.inserted other old)

theorem unlist {rest : List Word} (accounted : Accounted queue free shared)
    (found : shared.places[index]? = some place)
    (isFirst : shared.data.messages = block :: rest) (settled : place.inTransit = none)
    (moving : next.inTransit = some block)
    (tokens : next.tokens = place.tokens) (entries : next.entries = place.entries)
    (available : next.available = place.available) (listed : next.listed = place.listed - 1)
    (flow : ∀ message, next.flow message =
      place.flow message - if shared.data.message block = message then 1 else 0)
    (carries : ∀ message, next.carries = some (block, message) →
      shared.data.message block = message) (sound : next.isSound) :
    Accounted queue free
      ⟨shared.memory, { shared.data with messages := rest }, shared.places.set index next⟩ := by
  have listedBlocks := accounted.listed
  have ordered := accounted.ordered
  have present := accounted.present
  have inserted := accounted.inserted
  rw [isFirst] at ordered present inserted
  refine accounted.set found accounted.threads ?_ ?_ ?_ ?_ ?_ ?_ ?_ ?_ (fun _ _ _ _ _ _ => rfl)
    (List.pairwise_cons.mp ordered).2 ?_ sound
  · omega
  · omega
  · omega
  · rw [isFirst, List.length_cons, listed]
    simp only [Nat.cast_add, Nat.cast_one]
    omega
  · intro other _
    rw [isFirst, List.count_cons, QueuePlace.holds, QueuePlace.holds, settled, moving]
    simp only [beq_iff_eq, Option.some.injEq, reduceCtorEq, if_false]
    split
    · simp only [Nat.cast_add, Nat.cast_one]
      omega
    · simp only [Nat.add_zero]
  · exact fun other member => present other (List.mem_cons_of_mem block member)
  · intro message
    rw [isFirst, List.map_cons, List.count_cons, flow]
    simp only [beq_iff_eq]
    change ((rest.map shared.data.message).count message : Int) = _
    split
    · simp only [Nat.cast_add, Nat.cast_one]
      omega
    · simp only [Nat.add_zero]
      omega
  · intro other message isCarried
    obtain rfl : block = other := by
      have same := inTransit_of_carries isCarried
      rw [moving] at same
      exact Option.some_inj.mp same
    exact carries message isCarried
  · exact fun other member => inserted other (List.mem_cons_of_mem block member)

theorem push (accounted : Accounted queue free shared)
    (found : shared.places[index]? = some place) (positive : block ≠ 0)
    (moving : place.inTransit = some block) (settled : next.inTransit = none)
    (tokens : next.tokens = place.tokens) (entries : next.entries = place.entries + 1)
    (available : next.available = place.available) (listed : next.listed = place.listed)
    (flow : ∀ message, next.flow message = place.flow message) (sound : next.isSound) :
    Accounted queue (block :: free) ⟨shared.memory,
      shared.data.withPool (shared.data.pool.push block), shared.places.set index next⟩ := by
  obtain ⟨_, notFree, notListed, _⟩ := accounted.alone found moving positive
  have elsewhere : ∀ other, other ≠ block →
      (shared.data.withPool (shared.data.pool.push block)).message other =
        shared.data.message other := fun other different =>
    message_congr (Function.update_of_ne different _ _) rfl
  refine accounted.set found (accounted.threads.push notFree positive) ?_ ?_ ?_ ?_ ?_
    accounted.present ?_ ?_ ?_ ?_ accounted.inserted sound
  · omega
  · rw [List.length_cons, entries]
    simp only [Nat.cast_add, Nat.cast_one]
    omega
  · omega
  · change (shared.data.messages.length : Int) = _
    omega
  · intro other _
    rw [List.count_cons, QueuePlace.holds, QueuePlace.holds, settled, moving]
    simp only [beq_iff_eq, Option.some.injEq, reduceCtorEq, if_false, QueueData.withPool]
    split
    · simp only [Nat.cast_add, Nat.cast_one]
      omega
    · simp only [Nat.add_zero]
  · intro message
    have same : (shared.data.withPool (shared.data.pool.push block)).messages.map
        (shared.data.withPool (shared.data.pool.push block)).message =
          shared.data.messages.map shared.data.message := by
      refine List.map_congr_left fun other member => elsewhere other ?_
      rintro rfl
      exact notListed member
    rw [same, flow]
    omega
  · intro other message carries
    rw [inTransit_of_carries carries] at settled
    cases settled
  · intro other place moved different foundOther movingOther
    refine elsewhere moved ?_
    rintro rfl
    exact accounted.apart found moving positive different foundOther movingOther
  · refine ordered_congr accounted.ordered rfl fun other member => Function.update_of_ne ?_ _ _
    rintro rfl
    exact notListed member

theorem exists_first (accounted : Accounted queue free shared)
    (found : shared.places[index]? = some place) (ahead : place.available < place.listed) :
    ∃ first rest, shared.data.messages = first :: rest := by
  have bound := accounted.available_le found
  cases messages : shared.data.messages with
  | nil =>
      rw [messages, List.length_nil] at bound
      omega
  | cons first rest => exact ⟨first, rest, rfl⟩

theorem getPop (accounted : Accounted queue free shared)
    (found : shared.places[index]? = some (.getPop context)) :
    Accounted queue free (Program.perform shared index answer
      (.data fun data =>
        match data.messages with
        | [] => (data, .getEmpty)
        | block :: rest =>
            ({ data with messages := rest }, .getCopy context block (data.message block)) :
        ThreadOp (QueueData Content) (QueuePlace Content))) := by
  obtain ⟨first, rest, isFirst⟩ := accounted.exists_first found
    (show (-1 : Int) < 0 by decide)
  have positive := accounted.present first (isFirst ▸ List.mem_cons_self)
  simp only [Program.perform, isFirst]
  refine accounted.unlist found isFirst rfl rfl rfl rfl rfl rfl ?_ ?_ (decide_eq_true positive)
  · intro message
    simp only [QueuePlace.flow]
    split
    · omega
    · omega
  · intro message carries
    cases carries
    rfl

theorem getCopy {removed : Message Content} (accounted : Accounted queue free shared)
    (found : shared.places[index]? = some (.getCopy context block removed)) :
    Accounted queue free (Program.perform shared index answer
      (.data fun data => (data, afterGetFree (data.message block) block
        (osMemoryPoolFreeStart queue.pool block context)) :
        ThreadOp (QueueData Content) (QueuePlace Content))) := by
  have positive : block ≠ 0 := of_decide_eq_true (accounted.sound _ (List.mem_of_getElem? found))
  obtain ⟨inside, _⟩ := accounted.alone found rfl positive
  have isRemoved : shared.data.message block = removed :=
    accounted.carried index _ block removed found rfl
  simp only [Program.perform, osMemoryPoolFreeStart_of_mem inside, isRemoved, afterGetFree]
  refine accounted.set found accounted.threads ?_ ?_ ?_ ?_ (fun _ _ => rfl) accounted.present ?_ ?_
    (fun _ _ _ _ _ _ => rfl) accounted.ordered accounted.inserted (decide_eq_true positive)
  · change _ = _ + (0 : Int) - 0
    omega
  · change _ = _ + (0 : Int) - 0
    omega
  · change _ = _ + (-1 : Int) - -1
    omega
  · change _ = _ + (-1 : Int) - -1
    omega
  · intro message
    simp only [QueuePlace.flow]
    omega
  · intro other message carries
    cases carries

theorem getPush {returning : Context} (accounted : Accounted queue free shared)
    (found : shared.places[index]? = some (.getFree got block (.push returning))) :
    Accounted queue (block :: free) (Program.perform shared index answer
      ((ofPool (osMemoryPoolFree queue.pool block (.push returning))).map
        (afterGetFree got block))) := by
  have positive : block ≠ 0 := of_decide_eq_true (accounted.sound _ (List.mem_of_getElem? found))
  simp only [osMemoryPoolFree, ofPool, Op.within, Op.map, Program.perform,
    osSemaphoreReleaseStart_pool, FreePlace.afterRelease, afterGetFree]
  exact accounted.push found positive rfl rfl rfl rfl rfl rfl (fun _ => rfl) (decide_eq_true positive)

theorem resetPop (accounted : Accounted queue free shared)
    (found : shared.places[index]? = some (.resetPop discarded)) :
    Accounted queue free (Program.perform shared index answer
      (.data fun data =>
        match data.messages with
        | [] => (data, .resetEmpty discarded)
        | block :: rest =>
            ({ data with messages := rest },
              afterResetFree (discarded ++ [data.message block]) block
                (osMemoryPoolFreeStart queue.pool block .thread)) :
        ThreadOp (QueueData Content) (QueuePlace Content))) := by
  obtain ⟨first, rest, isFirst⟩ := accounted.exists_first found (by
    simp only [QueuePlace.available, QueuePlace.listed, account]
    omega)
  obtain ⟨positive, inside, _⟩ := accounted.mem_messages (isFirst ▸ List.mem_cons_self)
  simp only [Program.perform, isFirst, osMemoryPoolFreeStart_of_mem inside, afterResetFree]
  refine accounted.unlist found isFirst rfl rfl ?_ ?_ ?_ ?_ ?_ ?_ (decide_eq_true positive)
  · simp [QueuePlace.tokens, account, FreePlace.tokens]
  · simp [QueuePlace.entries, account, FreePlace.entries]
  · simp only [QueuePlace.available, account, List.length_append, List.length_singleton]
    omega
  · simp only [QueuePlace.listed, account, List.length_append, List.length_singleton]
    omega
  · intro message
    simp only [QueuePlace.flow, List.count_append, List.count_singleton, beq_iff_eq]
    split
    · simp only [Nat.cast_add, Nat.cast_one]
      omega
    · simp only [Nat.add_zero]
      omega
  · intro message carries
    cases carries

theorem resetPush {returning : Context} (accounted : Accounted queue free shared)
    (found : shared.places[index]? = some (.resetFree discarded block (.push returning))) :
    Accounted queue (block :: free) (Program.perform shared index answer
      ((ofPool (osMemoryPoolFree queue.pool block (.push returning))).map
        (afterResetFree discarded block))) := by
  have positive : block ≠ 0 := of_decide_eq_true (accounted.sound _ (List.mem_of_getElem? found))
  simp only [osMemoryPoolFree, ofPool, Op.within, Op.map, Program.perform,
    osSemaphoreReleaseStart_pool, FreePlace.afterRelease, afterResetFree]
  refine accounted.push found positive rfl rfl ?_ ?_ rfl rfl (fun _ => rfl) (decide_eq_true positive)
  · rfl
  · simp only [QueuePlace.entries, account, FreePlace.entries]
    omega

end Accounted

theorem settled_putDone (put : Message Content) {status : OsStatus} (fails : status ≠ .osOK) :
    Settled (.putDone put status) ⟨0, 0, 0, 0⟩ fun _ => 0 := by
  cases status with
  | osOK => exact (fails rfl).elim
  | _ => exact ⟨rfl, rfl, fun _ => rfl, rfl⟩

theorem settled_enter (queue : RtosMessageQueue) (entry : Context × QueueCall Content) :
    Settled ((queueProgram queue).enter entry) ⟨0, 0, 0, 0⟩ fun _ => 0 := by
  obtain ⟨context, call⟩ := entry
  cases call with
  | osMessageQueuePut message timeout =>
      simp only [queueProgram, osMessageQueuePutStart]
      split
      · rename_i fails
        exact settled_putDone message fails
      · split
        · exact settled_putDone message (by decide)
        · rcases osMemoryPoolAllocStart_cases queue.pool timeout context with ⟨place, start⟩ | start
          · rw [start]
            exact ⟨rfl, rfl, fun _ => rfl, rfl⟩
          · rw [start, afterAlloc, if_pos rfl]
            refine settled_putDone message ?_
            split
            · decide
            · decide
  | osMessageQueueGet timeout =>
      simp only [queueProgram, osMessageQueueGetStart]
      split
      · exact ⟨rfl, rfl, fun _ => rfl, rfl⟩
      · split
        · exact ⟨rfl, rfl, fun _ => rfl, rfl⟩
        · rcases osSemaphoreAcquireStart_cases queue.dataAvailable timeout context with
            ⟨place, start⟩ | ⟨error, fails, start⟩
          · rw [start]
            exact ⟨rfl, rfl, fun _ => rfl, rfl⟩
          · rw [start]
            cases error with
            | osOK => exact (fails rfl).elim
            | _ => exact ⟨rfl, rfl, fun _ => rfl, rfl⟩
  | osMessageQueueReset =>
      simp only [queueProgram, osMessageQueueResetStart]
      split
      · exact ⟨rfl, rfl, fun _ => rfl, rfl⟩
      · split
        · exact ⟨rfl, rfl, fun _ => rfl, rfl⟩
        · exact ⟨rfl, rfl, fun _ => rfl, rfl⟩

theorem Accounted.call (accounted : Accounted queue free shared)
    (settled : Settled next ⟨0, 0, 0, 0⟩ fun _ => 0) :
    Accounted queue free { shared with places := shared.places ++ [next] } := by
  obtain ⟨isAccount, transit, flow, sound⟩ := settled
  have tokens : next.tokens = 0 := congrArg Account.tokens isAccount
  have entries : next.entries = 0 := congrArg Account.entries isAccount
  have available : next.available = 0 := congrArg Account.available isAccount
  have listed : next.listed = 0 := congrArg Account.listed isAccount
  refine ⟨accounted.threads, ?_, ?_, ?_, ?_, ?_, accounted.present, ?_, ?_, accounted.ordered,
    accounted.inserted, ?_⟩
  · rw [total_append, total_cons, total_nil, tokens, accounted.tokens]
    omega
  · rw [total_append, total_cons, total_nil, entries, accounted.entries]
    omega
  · rw [total_append, total_cons, total_nil, available, accounted.available]
    omega
  · rw [total_append, total_cons, total_nil, listed, accounted.listed]
    omega
  · intro block positive
    rw [total_append, total_cons, total_nil, QueuePlace.holds, transit]
    simpa using accounted.owned block positive
  · intro message
    rw [total_append, total_cons, total_nil, flow, accounted.kept]
    omega
  · intro other place block message found carries
    rcases List.mem_append.mp (List.mem_of_getElem? found) with old | new
    · obtain ⟨before, foundBefore⟩ := List.mem_iff_getElem?.mp old
      exact accounted.carried before place block message foundBefore carries
    · obtain rfl := List.mem_singleton.mp new
      rw [inTransit_of_carries carries] at transit
      cases transit
  · intro other member
    rcases List.mem_append.mp member with old | new
    · exact accounted.sound other old
    · obtain rfl := List.mem_singleton.mp new
      exact sound

theorem Accounted.step {next : Shared Word Word (QueueData Content) (QueuePlace Content)}
    {move : Move Result (Context × QueueCall Content)} (accounted : Accounted queue free shared)
    (moved : (queueProgram queue).step shared move = some next) :
    ∃ after, Accounted queue after next := by
  cases move with
  | call entry =>
      obtain rfl := Option.some_inj.mp moved
      exact ⟨free, accounted.call (settled_enter queue entry)⟩
  | act index answer =>
      obtain ⟨place, op, found, isNext, rfl⟩ := Program.step_act moved
      have sound := accounted.sound place (List.mem_of_getElem? found)
      cases place with
      | putAlloc put timeout context place =>
          obtain rfl := Option.some_inj.mp isNext
          cases place with
          | acquire => exact ⟨free, accounted.putAcquire found⟩
          | pop => exact ⟨free.tail, accounted.putPop found⟩
      | putLoad put context block =>
          obtain rfl := Option.some_inj.mp isNext
          exact ⟨free, accounted.putLoad found⟩
      | putInsert put context block =>
          obtain rfl := Option.some_inj.mp isNext
          exact ⟨free, accounted.putInsert found⟩
      | putRelease put context block place =>
          obtain rfl := Option.some_inj.mp isNext
          exact ⟨free, accounted.putRelease found⟩
      | getAcquire timeout context place =>
          obtain rfl := Option.some_inj.mp isNext
          exact ⟨free, accounted.getAcquire found⟩
      | getPop context =>
          obtain rfl := Option.some_inj.mp isNext
          exact ⟨free, accounted.getPop found⟩
      | getCopy context block removed =>
          obtain rfl := Option.some_inj.mp isNext
          exact ⟨free, accounted.getCopy found⟩
      | getFree got block place =>
          obtain rfl := Option.some_inj.mp isNext
          cases place with
          | push => exact ⟨block :: free, accounted.getPush found⟩
          | release => exact ⟨free, accounted.getRelease found⟩
          | remove => cases sound
      | resetCount discarded =>
          obtain rfl := Option.some_inj.mp isNext
          exact ⟨free, accounted.resetCount found⟩
      | resetAcquire discarded place =>
          obtain rfl := Option.some_inj.mp isNext
          exact ⟨free, accounted.resetAcquire found⟩
      | resetPop discarded =>
          obtain rfl := Option.some_inj.mp isNext
          exact ⟨free, accounted.resetPop found⟩
      | resetFree discarded block place =>
          obtain rfl := Option.some_inj.mp isNext
          cases place with
          | push => exact ⟨block :: free, accounted.resetPush found⟩
          | release => exact ⟨free, accounted.resetRelease found⟩
          | remove => cases sound
      | putRemove | putFree | getEmpty | resetEmpty => cases sound
      | putDone | getDone | resetDone => cases isNext

end Words

theorem apart_pool (queue : RtosMessageQueue) : queue.pool.Apart := by
  refine Or.inl fun none => ?_
  have size := congrArg BitVec.toNat (queue.sized.symm.trans none)
  have unwrapped := queue.unwrapped
  rw [BitVec.toNat_add, Nat.mod_eq_of_lt unwrapped] at size
  have positive : 0 < rtosMessageSize.toNat := by decide
  have zero : (0 : Word).toNat = 0 := rfl
  omega

theorem accounted_initial (queue : RtosMessageQueue) (contents : Word → Word)
    (content : Word → Content) :
    Accounted queue queue.pool.blocks.reverse
      ⟨fun address => if queue.cells address then queue.initialMemory address else 0,
        queue.initialData contents content, []⟩ := by
  have nodup := RtosMemoryPool.nodup_blocks (apart_pool queue)
  have isCell : queue.cells queue.value ∧ queue.cells queue.pool.value := by
    simp [RtosMessageQueue.cells]
  refine ⟨?_, ?_, ?_, ?_, ?_, ?_, ?_, ?_, ?_, ?_, ?_, ?_⟩
  · have threads := @threads_foldl_push queue.pool.blocks [] ⟨0, contents⟩ rfl (by simpa using nodup)
      (fun block => RtosMemoryPool.ne_zero_of_mem)
    simpa [RtosMessageQueue.initialData, RtosMemoryPool.initialData] using threads
  · simp [isCell.2, RtosMessageQueue.initialMemory]
  · simp
  · simp [isCell.1, RtosMessageQueue.initialMemory, queue.distinct]
  · simp [RtosMessageQueue.initialData]
  · intro block _
    rw [List.count_reverse]
    split
    · rename_i inside
      simp [RtosMessageQueue.initialData, List.count_eq_one_of_mem nodup inside]
    · rename_i outside
      simp [RtosMessageQueue.initialData, List.count_eq_zero_of_not_mem outside]
  · simp [RtosMessageQueue.initialData]
  · simp [RtosMessageQueue.initialData]
  · simp
  · exact List.Pairwise.nil
  · simp [RtosMessageQueue.initialData]
  · simp

namespace QueuePlace

def isPutOf (message : Message Content) : QueuePlace Content → Bool
  | .putAlloc put _ _ _ | .putLoad put _ _ | .putInsert put _ _ | .putRelease put _ _ _
  | .putRemove put _ _ _ | .putFree put _ _ _ | .putDone put _ => decide (put = message)
  | _ => false

def hasPut (message : Message Content) : QueuePlace Content → Bool
  | .putRelease put _ _ _ | .putDone put .osOK => decide (put = message)
  | _ => false

def hasGot (message : Message Content) : QueuePlace Content → Bool
  | .getCopy _ _ got | .getFree got _ _ | .getDone _ (some got) => decide (got = message)
  | _ => false

def discards (message : Message Content) : QueuePlace Content → Nat
  | .resetCount discarded | .resetAcquire discarded _ | .resetPop discarded
  | .resetFree discarded _ _ | .resetDone discarded _ => discarded.count message
  | _ => 0

omit [DecidableEq Content] in
/-- The branches for a token without a message, and for a queue that has no room for its token. -/
def isLost : QueuePlace Content → Bool
  | .getEmpty | .resetEmpty _ | .putRemove _ _ _ _ | .putFree _ _ _ _ => true
  | _ => false

end QueuePlace

/-- What the queue promises: the message that goes next has the greatest priority, and of those with
it was inserted first; no block is lost; a message that has been put in is in the list, or has been
taken by one Get or discarded by one Reset; and no call is at a branch for a lost message. -/
structure MessagesKept (queue : RtosMessageQueue) (data : QueueData Content)
    (places : List (QueuePlace Content)) (free : List Word) : Prop where
  threads : Threads data.pool.memory 0 data.pool.freeList free
  first : ∀ block rest, data.messages = block :: rest → ∀ other ∈ rest, data.Before block other
  blocks : data.messages.length + free.length +
    places.countP (fun place => place.inTransit.isSome) = queue.pool.capacity.toNat
  kept : ∀ message, places.countP (QueuePlace.hasPut message) =
    (data.messages.map data.message).count message + places.countP (QueuePlace.hasGot message) +
      (places.map (QueuePlace.discards message)).sum
  once : ∀ message, places.countP (QueuePlace.isPutOf message) ≤ 1 →
    .putDone message .osOK ∈ places →
      (data.messages.map data.message).count message + places.countP (QueuePlace.hasGot message) +
        (places.map (QueuePlace.discards message)).sum = 1
  found : ∀ place ∈ places, place.isLost = false

def QueueData.First (data : QueueData Content) (block : Word) : Prop :=
  block ∈ data.messages ∧ ∀ other ∈ data.messages, other ≠ block → data.Before block other

/-- What a step takes out of the list: a Get that moves on, and a Reset, take the message that goes
next, and nothing else takes any. -/
structure MessagesTaken (data : QueueData Content) (places : List (QueuePlace Content))
    (dataNext : QueueData Content) (placesNext : List (QueuePlace Content)) : Prop where
  get : ∀ (index : Nat) context, places[index]? = some (.getPop context) →
    placesNext[index]? = some (.getPop context) ∨
      ∃ block, data.First block ∧ dataNext.messages = data.messages.erase block ∧
        placesNext[index]? = some (.getCopy context block (data.message block))
  reset : ∀ (index : Nat) discarded, places[index]? = some (.resetPop discarded) →
    placesNext[index]? = some (.resetPop discarded) ∨
      ∃ block place, data.First block ∧ dataNext.messages = data.messages.erase block ∧
        placesNext[index]? = some place ∧ ∀ message,
          place.discards message = (discarded ++ [data.message block]).count message
  taken : ∀ block ∈ data.messages, block ∉ dataNext.messages → data.First block ∧
    ∃ index : Nat, (∃ context, places[index]? = some (.getPop context) ∧
        placesNext[index]? = some (.getCopy context block (data.message block))) ∨
      ∃ discarded, places[index]? = some (.resetPop discarded) ∧
        placesNext[index]? ≠ some (.resetPop discarded)

theorem flow_eq (message : Message Content) (place : QueuePlace Content) :
    place.flow message =
      (place.hasPut message).toNat - (place.hasGot message).toNat - place.discards message := by
  have isOne : ∀ put : Message Content, ((decide (put = message)).toNat : Int) =
      if put = message then 1 else 0 := by
    intro put
    by_cases same : put = message
    · rw [decide_eq_true same, if_pos same, Bool.toNat_true, Nat.cast_one]
    · rw [decide_eq_false same, if_neg same, Bool.toNat_false, Nat.cast_zero]
  have isLess : ∀ got : Message Content, (if got = message then (-1 : Int) else 0) =
      -(decide (got = message)).toNat := by
    intro got
    rw [isOne]
    split
    · rfl
    · rfl
  cases place with
  | putRelease put =>
      simp only [QueuePlace.flow, hasPut, hasGot, discards, isOne, Bool.toNat_false]
      omega
  | putDone put status =>
      cases status with
      | osOK =>
          simp only [QueuePlace.flow, hasPut, hasGot, discards, isOne, Bool.toNat_false]
          omega
      | _ => rfl
  | getCopy | getFree =>
      simp only [QueuePlace.flow, hasPut, hasGot, discards, isLess, Bool.toNat_false]
      omega
  | getDone status got =>
      cases got with
      | none => rfl
      | some got =>
          simp only [QueuePlace.flow, hasPut, hasGot, discards, isLess, Bool.toNat_false]
          omega
  | resetCount | resetAcquire | resetPop | resetFree | resetDone =>
      simp only [QueuePlace.flow, hasPut, hasGot, discards, Bool.toNat_false]
      omega
  | _ => rfl

theorem isPutOf_of_hasPut {message : Message Content} {place : QueuePlace Content}
    (put : place.hasPut message) : place.isPutOf message := by
  cases place with
  | putRelease => exact put
  | putDone _ status =>
      cases status with
      | osOK => exact put
      | _ => cases put
  | _ => cases put

theorem Accounted.messagesKept {queue : RtosMessageQueue} {free : List Word}
    {shared : Shared Word Word (QueueData Content) (QueuePlace Content)}
    (accounted : Accounted queue free shared) :
    MessagesKept queue shared.data shared.places free := by
  have balance : ∀ message, shared.places.countP (QueuePlace.hasPut message) =
      (shared.data.messages.map shared.data.message).count message +
        shared.places.countP (QueuePlace.hasGot message) +
        (shared.places.map (QueuePlace.discards message)).sum := by
    intro message
    have kept := accounted.kept message
    rw [total_congr fun place _ => flow_eq message place, total_sub, total_countP,
      total_natCast] at kept
    omega
  refine ⟨accounted.threads, ?_, accounted.length_add, balance, ?_, ?_⟩
  · intro block rest isFirst
    have ordered := accounted.ordered
    rw [isFirst] at ordered
    exact (List.pairwise_cons.mp ordered).1
  · intro message atMostOne put
    rw [← balance message]
    refine Nat.le_antisymm (Nat.le_trans ?_ atMostOne) (List.countP_pos_iff.mpr ⟨_, put, ?_⟩)
    · exact List.countP_mono_left fun place _ => isPutOf_of_hasPut
    · simp [hasPut]
  · intro place member
    have sound := accounted.sound place member
    cases place with
    | getEmpty | resetEmpty | putRemove | putFree => cases sound
    | _ => rfl

section Taken

variable {queue : RtosMessageQueue} {free : List Word}
  {shared next : Shared Word Word (QueueData Content) (QueuePlace Content)}
  {move : Move Result (Context × QueueCall Content)} {index : Nat} {block : Word}

theorem Accounted.first_eq (accounted : Accounted queue free shared) {rest : List Word}
    (isFirst : shared.data.messages = block :: rest) :
    shared.data.First block ∧ rest = shared.data.messages.erase block := by
  have ordered := accounted.ordered
  rw [isFirst] at ordered
  refine ⟨⟨isFirst ▸ List.mem_cons_self, ?_⟩, ?_⟩
  · intro other member different
    rcases List.mem_cons.mp (isFirst ▸ member) with same | later
    · exact (different same).elim
    · exact (List.pairwise_cons.mp ordered).1 other later
  · rw [isFirst, List.erase_cons_head]

omit [DecidableEq Content] in
theorem messages_ofPool {Place : Type} (op : ThreadOp PoolData Place) (answer : Result)
    (outer : Place → QueuePlace Content) :
    (Program.perform shared index answer ((ofPool op).map outer)).data.messages =
      shared.data.messages := by
  cases op with
  | _ => rfl

omit [DecidableEq Content] in
theorem messages_acquire (semaphore : RtosSemaphore) (timeout : Word) (place : AcquirePlace)
    (answer : Result) (outer : AcquirePlace ⊕ OsStatus → QueuePlace Content) :
    (Program.perform shared index answer
      ((osSemaphoreAcquire semaphore timeout place).map outer)).data = shared.data := by
  cases place with
  | _ => rfl

omit [DecidableEq Content] in
theorem messages_release (semaphore : RtosSemaphore) (place : ReleasePlace) (answer : Result)
    (outer : ReleasePlace ⊕ OsStatus → QueuePlace Content) :
    (Program.perform shared index answer
      ((osSemaphoreRelease semaphore place).map outer)).data = shared.data := by
  cases place with
  | _ => rfl

theorem Accounted.popped_of_gone (accounted : Accounted queue free shared)
    (moved : (queueProgram queue).step shared move = some next)
    (listed : block ∈ shared.data.messages) (gone : block ∉ next.data.messages) :
    ∃ index answer, move = .act index answer ∧
      ((∃ context, shared.places[index]? = some (.getPop context)) ∨
        ∃ discarded, shared.places[index]? = some (.resetPop discarded)) := by
  cases move with
  | call entry =>
      obtain rfl := Option.some_inj.mp moved
      exact (gone listed).elim
  | act index answer =>
      obtain ⟨place, op, found, isNext, rfl⟩ := Program.step_act moved
      have sound := accounted.sound place (List.mem_of_getElem? found)
      refine ⟨index, answer, rfl, ?_⟩
      cases place with
      | getPop context => exact Or.inl ⟨context, found⟩
      | resetPop discarded => exact Or.inr ⟨discarded, found⟩
      | putInsert put context fresh =>
          obtain rfl := Option.some_inj.mp isNext
          exact (gone ((List.mem_orderedInsert _).mpr (Or.inr listed))).elim
      | putAlloc | getFree | resetFree =>
          obtain rfl := Option.some_inj.mp isNext
          rw [messages_ofPool] at gone
          exact (gone listed).elim
      | getAcquire | resetAcquire =>
          obtain rfl := Option.some_inj.mp isNext
          rw [messages_acquire] at gone
          exact (gone listed).elim
      | putRelease =>
          obtain rfl := Option.some_inj.mp isNext
          rw [messages_release] at gone
          exact (gone listed).elim
      | putLoad | getCopy | resetCount =>
          obtain rfl := Option.some_inj.mp isNext
          exact (gone listed).elim
      | putRemove | putFree | getEmpty | resetEmpty => cases sound
      | putDone | getDone | resetDone => cases isNext

theorem discards_afterResetFree (discarded : List (Message Content))
    (block : Word)
    (start : FreePlace ⊕ OsStatus) (message : Message Content) :
    (afterResetFree discarded block start).discards message = discarded.count message := by
  rcases start with place | status
  · rfl
  · cases status with
    | _ => rfl

theorem Accounted.get_takes (accounted : Accounted queue free shared) {context : Context}
    {answer : Result} (found : shared.places[index]? = some (.getPop context))
    (moved : (queueProgram queue).step shared (.act index answer) = some next) :
    ∃ block, shared.data.First block ∧ next.data.messages = shared.data.messages.erase block ∧
      next.places[index]? = some (.getCopy context block (shared.data.message block)) := by
  obtain ⟨block, rest, isFirst⟩ := accounted.exists_first found (show (-1 : Int) < 0 by decide)
  obtain ⟨first, erased⟩ := accounted.first_eq isFirst
  obtain ⟨place, op, at_, isNext, rfl⟩ := Program.step_act moved
  obtain rfl := Option.some_inj.mp (at_.symm.trans found)
  obtain rfl := Option.some_inj.mp isNext
  have bound : index < shared.places.length := (List.getElem?_eq_some_iff.mp found).1
  refine ⟨block, first, ?_, ?_⟩
  · simp only [Program.perform, isFirst]
    rw [← isFirst]
    exact erased
  · simp only [Program.perform, isFirst]
    exact List.getElem?_set_self bound

theorem Accounted.reset_takes (accounted : Accounted queue free shared)
    {discarded : List (Message Content)} {answer : Result}
    (found : shared.places[index]? = some (.resetPop discarded))
    (moved : (queueProgram queue).step shared (.act index answer) = some next) :
    ∃ block place, shared.data.First block ∧
      next.data.messages = shared.data.messages.erase block ∧ next.places[index]? = some place ∧
        ∀ message, place.discards message =
          (discarded ++ [shared.data.message block]).count message := by
  obtain ⟨block, rest, isFirst⟩ := accounted.exists_first found (by
    simp only [QueuePlace.available, QueuePlace.listed, account]
    omega)
  obtain ⟨first, erased⟩ := accounted.first_eq isFirst
  obtain ⟨place, op, at_, isNext, rfl⟩ := Program.step_act moved
  obtain rfl := Option.some_inj.mp (at_.symm.trans found)
  obtain rfl := Option.some_inj.mp isNext
  have bound : index < shared.places.length := (List.getElem?_eq_some_iff.mp found).1
  refine ⟨block, afterResetFree (discarded ++ [shared.data.message block]) block
    (osMemoryPoolFreeStart queue.pool block .thread), first, ?_, ?_, ?_⟩
  · simp only [Program.perform, isFirst]
    rw [← isFirst]
    exact erased
  · simp only [Program.perform, isFirst]
    exact List.getElem?_set_self bound
  · exact fun message => discards_afterResetFree _ _ _ message

theorem Accounted.messagesTaken (accounted : Accounted queue free shared)
    (moved : (queueProgram queue).step shared move = some next) :
    MessagesTaken shared.data shared.places next.data next.places := by
  refine ⟨?_, ?_, ?_⟩
  · intro index context found
    by_cases acts : ∃ answer, move = .act index answer
    · obtain ⟨answer, rfl⟩ := acts
      exact Or.inr (accounted.get_takes found moved)
    · exact Or.inl (Program.place_of_other moved found fun answer same => acts ⟨answer, same⟩)
  · intro index discarded found
    by_cases acts : ∃ answer, move = .act index answer
    · obtain ⟨answer, rfl⟩ := acts
      exact Or.inr (accounted.reset_takes found moved)
    · exact Or.inl (Program.place_of_other moved found fun answer same => acts ⟨answer, same⟩)
  · intro block listed gone
    obtain ⟨index, answer, rfl, popping⟩ := accounted.popped_of_gone moved listed gone
    rcases popping with ⟨context, found⟩ | ⟨discarded, found⟩
    · obtain ⟨taken, first, left, at_⟩ := accounted.get_takes found moved
      obtain rfl : block = taken := by
        by_contra different
        exact gone (left ▸ (List.mem_erase_of_ne different).mpr listed)
      exact ⟨first, index, Or.inl ⟨context, found, at_⟩⟩
    · obtain ⟨taken, place, first, left, at_, count⟩ := accounted.reset_takes found moved
      obtain rfl : block = taken := by
        by_contra different
        exact gone (left ▸ (List.mem_erase_of_ne different).mpr listed)
      refine ⟨first, index, Or.inr ⟨discarded, found, ?_⟩⟩
      rw [at_]
      rintro same
      obtain rfl := Option.some_inj.mp same
      have more := count (shared.data.message block)
      simp [discards] at more

theorem MessagesTaken.same {data : QueueData Content} {places : List (QueuePlace Content)} :
    MessagesTaken data places data places :=
  ⟨fun _ _ found => Or.inl found, fun _ _ found => Or.inl found,
    fun _ listed gone => (gone listed).elim⟩

end Taken

omit [DecidableEq Content] in
theorem confined_queueProgram (queue : RtosMessageQueue) :
    Confined queue.cells (queueProgram queue :
      ThreadProgram (QueueData Content) (QueuePlace Content) (QueueCall Content)) := by
  have isValue : queue.cells queue.value := by simp [RtosMessageQueue.cells]
  have isPoolValue : queue.cells queue.pool.value := by simp [RtosMessageQueue.cells]
  constructor
  · intro place address act isNext
    rcases place with ⟨_, _, _, (_ | _) | _⟩ | _ | _ | ⟨_, _, _, _ | _ | _⟩ | _ |
      ⟨_, _, _, _ | (_ | _ | _) | _⟩ | _ | ⟨_, _, _ | _⟩ | _ | _ | _ |
      ⟨_, _, _ | (_ | _ | _) | _⟩ | _ | _ | ⟨_, _ | _⟩ | _ | _ | ⟨_, _, _ | (_ | _ | _) | _⟩ | _
    all_goals
      cases isNext
      try exact isValue
      try exact isPoolValue
  · intro place futex value flags resume isNext
    rcases place with ⟨_, _, _, (_ | _) | _⟩ | _ | _ | ⟨_, _, _, _ | _ | _⟩ | _ |
      ⟨_, _, _, _ | (_ | _ | _) | _⟩ | _ | ⟨_, _, _ | _⟩ | _ | _ | _ |
      ⟨_, _, _ | (_ | _ | _) | _⟩ | _ | _ | ⟨_, _ | _⟩ | _ | _ | ⟨_, _, _ | (_ | _ | _) | _⟩ | _
    all_goals cases isNext

/-- Every message queue keeps what it promises, in every interleaving of its calls. -/
theorem messagesKept_of_reachable {cores : Nat} [NeZero cores] {queue : RtosMessageQueue}
    {contents : Word → Word} {content : Word → Content}
    {machine : Machine cores (QueueData Content) (QueuePlace Content)}
    (reached : (queueSystem cores queue contents content).Reachable machine) :
    (∃ free, MessagesKept queue machine.data (machine.calls.map Call.place) free) ∧
      ∀ label next, (queueSystem cores queue contents content).step machine label = some next →
        MessagesTaken machine.data (machine.calls.map Call.place) next.data
          (next.calls.map Call.place) := by
  have confined : Confined queue.cells (queueProgram queue :
      ThreadProgram (QueueData Content) (QueuePlace Content) (QueueCall Content)) :=
    confined_queueProgram queue
  obtain ⟨free, accounted⟩ := invariant_of_reachable
    (fun shared => ∃ free, Accounted queue free shared) confined
    ⟨_, accounted_initial queue contents content⟩
    (fun shared move next ⟨free, accounted⟩ moved => accounted.step moved) reached
  refine ⟨⟨free, accounted.messagesKept⟩, fun label next moved => ?_⟩
  rcases shared_of_step confined reached moved with same | ⟨move, performed⟩
  · have data : next.data = machine.data := congrArg Shared.data same
    have places : next.calls.map Call.place = machine.calls.map Call.place :=
      congrArg Shared.places same
    rw [data, places]
    exact MessagesTaken.same
  · exact accounted.messagesTaken performed

def twoMessages : RtosMessageQueue where
  value := 0x104
  futex := 0x100
  pool :=
    { value := 0x10c
      futex := 0x108
      poolData := 0x20000100
      blockSize := 20
      capacity := 2
      aligned := by decide
      present := twoBlocks.present
      fits := by decide }
  msgSize := 4
  sized := by decide
  unwrapped := by decide
  distinct := by decide

theorem messagesKept_of_reachable_delivered :
    ∃ machine : Machine 1 (QueueData Nat) (QueuePlace Nat),
      machine.calls.map Call.place =
          [.putDone ⟨1, 7⟩ .osOK, .putDone ⟨2, 8⟩ .osOK, .getDone .osOK (some ⟨2, 8⟩)] ∧
        (∃ free, MessagesKept twoMessages machine.data (machine.calls.map Call.place) free) ∧
        ∀ label next, (queueSystem 1 twoMessages (fun _ => 0) fun _ => 0).step machine label =
          some next → MessagesTaken machine.data (machine.calls.map Call.place) next.data
            (next.calls.map Call.place) := by
  obtain ⟨machine, reached, delivered⟩ := exists_machine (queueProgram twoMessages)
    (fun _ _ => True) [twoMessages.value, twoMessages.pool.value] twoMessages.initialMemory
    (twoMessages.initialData (fun _ => 0) fun _ => 0)
    (oneRunner ++ [.store 0x10c 2, .futexInit 0x100 0x104 0, .futexInit 0x108 0x10c 0])
    (List.flatten [[.call 0 (.osMessageQueuePut ⟨1, 7⟩ 0)], List.replicate 8 (.act 0 0),
      [.call 0 (.osMessageQueuePut ⟨2, 8⟩ 0)], List.replicate 6 (.act 0 1),
      [.call 0 (.osMessageQueueGet 0)], List.replicate 8 (.act 0 2)])
    (fun machine => machine.calls.map Call.place =
      [.putDone ⟨1, 7⟩ .osOK, .putDone ⟨2, 8⟩ .osOK, .getDone .osOK (some ⟨2, 8⟩)])
    (by decide)
  obtain ⟨kept, taken⟩ := messagesKept_of_reachable reached
  exact ⟨machine, delivered, kept, taken⟩

end PicoToolkit
