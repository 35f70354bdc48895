import Mathlib.Data.List.Nodup
import PicoToolkit.Library.Transition
import PicoToolkit.Scheduler.State

/-!
The control block of the real-time terminal: how it is initialised, and how its ring buffers are
configured.  The functions for the buffers of both directions differ in nothing else.
-/

namespace PicoToolkit.Rtt

open Transition

inductive Direction where
  | up
  | down
  deriving DecidableEq

structure RttBuffer where
  sName : Word := 0
  pBuffer : Word := 0
  sizeOfBuffer : Word := 0
  wrOff : Word := 0
  rdOff : Word := 0
  flags : Word := 0
  deriving DecidableEq

structure ControlBlock where
  acID : Nat → BitVec 8
  maxNumBuffers : Direction → Int
  buffers : Direction → Nat → RttBuffer

/-- `SEGGER_RTT_MAX_NUM_UP_BUFFERS` and `SEGGER_RTT_MAX_NUM_DOWN_BUFFERS`. -/
def rttMaxNumBuffers : Nat := 3

structure Placement where
  terminal : Word
  acBuffer : Direction → Word
  notNull : ∀ direction, acBuffer direction ≠ 0

def rttBufferSize : Direction → Word
  | .up => 1024
  | .down => 16

/-- `_aInitStr` without its end, which is the text "SEGGER RTT" and six zeros from back to front. -/
def aInitStr : List (BitVec 8) :=
  [0, 0, 0, 0, 0, 0, 0x54, 0x54, 0x52, 0x20, 0x52, 0x45, 0x47, 0x47, 0x45, 0x53]

/-- A store to the control block; `sizeof` many zeros are one store. -/
inductive Store where
  | clear
  | maxNum (direction : Direction) (number : Int)
  | buffer (direction : Direction) (index : Nat) (change : RttBuffer → RttBuffer)
  | id (index : Nat) (byte : BitVec 8)

def ControlBlock.setBuffer (block : ControlBlock) (direction : Direction) (index : Nat)
    (buffer : RttBuffer) : ControlBlock :=
  { block with
    buffers := Function.update block.buffers direction
      (Function.update (block.buffers direction) index buffer) }

def Store.apply (block : ControlBlock) : Store → ControlBlock
  | .clear => ⟨fun _ => 0, fun _ => 0, fun _ _ => {}⟩
  | .maxNum direction number =>
      { block with maxNumBuffers := Function.update block.maxNumBuffers direction number }
  | .buffer direction index change =>
      block.setBuffer direction index (change (block.buffers direction index))
  | .id index byte => { block with acID := Function.update block.acID index byte }

def initBuffer (placement : Placement) (direction : Direction) : List Store :=
  [.buffer direction 0 fun buffer => { buffer with sName := placement.terminal },
    .buffer direction 0 fun buffer => { buffer with pBuffer := placement.acBuffer direction },
    .buffer direction 0 fun buffer => { buffer with sizeOfBuffer := rttBufferSize direction },
    .buffer direction 0 fun buffer => { buffer with rdOff := 0 },
    .buffer direction 0 fun buffer => { buffer with wrOff := 0 },
    .buffer direction 0 fun buffer => { buffer with flags := 0 }]

/-- The stores of `_DoInit` before it stores the identifier. -/
def initFields (placement : Placement) : List Store :=
  [.clear, .maxNum .up rttMaxNumBuffers, .maxNum .down rttMaxNumBuffers] ++
    initBuffer placement .up ++ initBuffer placement .down

/-- `p->acID[i] = _aInitStr[sizeof(_aInitStr) - 2 - i]`. -/
def initId : List Store :=
  (List.range aInitStr.length).map fun index =>
    .id index (aInitStr.getD (aInitStr.length - 1 - index) 0)

def doInitStores (placement : Placement) : List Store := initFields placement ++ initId

def doInit (placement : Placement) (block : ControlBlock) : ControlBlock :=
  (doInitStores placement).foldl Store.apply block

def init (placement : Placement) (block : ControlBlock) : ControlBlock :=
  if block.acID 0 ≠ 0x53 then doInit placement block else block

def searchUnused (block : ControlBlock) (direction : Direction) : Nat → Nat → Nat
  | 0, index => index
  | rounds + 1, index =>
      if (block.buffers direction index).pBuffer = 0 then index
      else if (index + 1 : Int) < block.maxNumBuffers direction then
        searchUnused block direction rounds (index + 1)
      else index + 1

/-- `SEGGER_RTT_AllocUpBuffer` and `SEGGER_RTT_AllocDownBuffer`. -/
def allocBuffer (placement : Placement) (direction : Direction) (sName pBuffer bufferSize flags : Word)
    (block : ControlBlock) : Int × ControlBlock :=
  let block := init placement block
  let bufferIndex := searchUnused block direction rttMaxNumBuffers 0
  if (bufferIndex : Int) < block.maxNumBuffers direction then
    (bufferIndex, block.setBuffer direction bufferIndex {
      sName := sName, pBuffer := pBuffer, sizeOfBuffer := bufferSize, rdOff := 0, wrOff := 0,
      flags := flags })
  else (-1, block)

/-- What the functions for one buffer have in common: they change it if there is one with the index. -/
def changeBuffer (placement : Placement) (direction : Direction) (bufferIndex : Nat)
    (change : RttBuffer → RttBuffer) (block : ControlBlock) : Int × ControlBlock :=
  let block := init placement block
  if bufferIndex < rttMaxNumBuffers then
    (0, block.setBuffer direction bufferIndex (change (block.buffers direction bufferIndex)))
  else (-1, block)

/-- `SEGGER_RTT_ConfigUpBuffer` and `SEGGER_RTT_ConfigDownBuffer`. -/
def configBuffer (placement : Placement) (direction : Direction) (bufferIndex : Nat)
    (sName pBuffer bufferSize flags : Word) : ControlBlock → Int × ControlBlock :=
  changeBuffer placement direction bufferIndex fun buffer =>
    if bufferIndex ≠ 0 then
      { sName := sName, pBuffer := pBuffer, sizeOfBuffer := bufferSize, rdOff := 0, wrOff := 0,
        flags := flags }
    else { buffer with flags := flags }

/-- `SEGGER_RTT_SetNameUpBuffer` and `SEGGER_RTT_SetNameDownBuffer`. -/
def setNameBuffer (placement : Placement) (direction : Direction) (bufferIndex : Nat) (sName : Word) :
    ControlBlock → Int × ControlBlock :=
  changeBuffer placement direction bufferIndex fun buffer => { buffer with sName := sName }

/-- `SEGGER_RTT_SetFlagsUpBuffer` and `SEGGER_RTT_SetFlagsDownBuffer`. -/
def setFlagsBuffer (placement : Placement) (direction : Direction) (bufferIndex : Nat) (flags : Word) :
    ControlBlock → Int × ControlBlock :=
  changeBuffer placement direction bufferIndex fun buffer => { buffer with flags := flags }

def Recognized (block : ControlBlock) : Prop :=
  (List.range 10).map block.acID = [0x53, 0x45, 0x47, 0x47, 0x45, 0x52, 0x20, 0x52, 0x54, 0x54]

/-- The first buffer of a direction as `_DoInit` leaves it. -/
def firstBuffer (placement : Placement) (direction : Direction) : RttBuffer where
  sName := placement.terminal
  pBuffer := placement.acBuffer direction
  sizeOfBuffer := rttBufferSize direction

def Initialised (placement : Placement) (block : ControlBlock) : Prop :=
  ∀ direction, block.maxNumBuffers direction = 3 ∧
    block.buffers direction 0 = firstBuffer placement direction ∧
    ∀ index ≠ 0, block.buffers direction index = {}

section Init

variable {placement : Placement} {block : ControlBlock}

theorem initialised_fields :
    Initialised placement ((initFields placement).foldl Store.apply block) := by
  intro direction
  cases direction with
  | up =>
      refine ⟨rfl, rfl, fun index other => ?_⟩
      simp [initFields, initBuffer, Store.apply, ControlBlock.setBuffer, other]
  | down =>
      refine ⟨rfl, rfl, fun index other => ?_⟩
      simp [initFields, initBuffer, Store.apply, ControlBlock.setBuffer, other]

def Store.IsField : Store → Prop
  | .maxNum _ _ | .buffer _ _ _ => True
  | .clear | .id _ _ => False

theorem acID_fields (block : ControlBlock) {stores : List Store}
    (fields : ∀ store ∈ stores, store.IsField) :
    (stores.foldl Store.apply block).acID = block.acID := by
  induction stores generalizing block with
  | nil => rfl
  | cons store rest ih =>
      have isField := fields store List.mem_cons_self
      rw [List.foldl_cons, ih _ fun other member => fields other (List.mem_cons_of_mem _ member)]
      cases store with
      | clear => exact isField.elim
      | maxNum direction number => rfl
      | buffer direction index change => rfl
      | id index byte => exact isField.elim

theorem fields_ids (block : ControlBlock) (indices : List Nat) (byte : Nat → BitVec 8) :
    ((indices.map fun index => Store.id index (byte index)).foldl Store.apply block).maxNumBuffers =
        block.maxNumBuffers ∧
      ((indices.map fun index => Store.id index (byte index)).foldl Store.apply block).buffers =
        block.buffers := by
  induction indices generalizing block with
  | nil => exact ⟨rfl, rfl⟩
  | cons index rest ih =>
      obtain ⟨maxNum, buffers⟩ := ih (Store.apply block (.id index (byte index)))
      exact ⟨maxNum, buffers⟩

/-- While `_DoInit` stores, the host finds the identifier only after everything else is initialised. -/
theorem doInit_order {done : Nat} (begun : 0 < done)
    (found : Recognized (((doInitStores placement).take done).foldl Store.apply block)) :
    Initialised placement (((doInitStores placement).take done).foldl Store.apply block) := by
  by_cases early : done ≤ (initFields placement).length
  · -- the identifier is still cleared
    obtain ⟨count, rfl⟩ := Nat.exists_eq_succ_of_ne_zero (Nat.ne_of_gt begun)
    exfalso
    rw [doInitStores, List.take_append_of_le_length early] at found
    have fields : ∀ store ∈ (initFields placement).tail.take count, store.IsField := by
      intro store member
      have inTail := List.mem_of_mem_take member
      simp only [initFields, initBuffer, List.cons_append, List.nil_append, List.tail_cons,
        List.mem_cons, List.not_mem_nil, or_false] at inTail
      rcases inTail with rfl | rfl | rfl | rfl | rfl | rfl | rfl | rfl | rfl | rfl | rfl | rfl | rfl |
        rfl
      all_goals trivial
    have cleared : (((initFields placement).take (count + 1)).foldl Store.apply block).acID =
        fun _ => 0 :=
      acID_fields (Store.apply block .clear) fields
    rw [Recognized, cleared] at found
    exact absurd found (by decide)
  · rw [doInitStores, List.take_append, List.take_of_length_le (Nat.le_of_not_le early),
      List.foldl_append, initId, ← List.map_take]
    intro direction
    obtain ⟨maxNum, buffers⟩ := fields_ids ((initFields placement).foldl Store.apply block)
      ((List.range aInitStr.length).take (done - (initFields placement).length))
      fun index => aInitStr.getD (aInitStr.length - 1 - index) 0
    rw [maxNum, buffers]
    exact initialised_fields direction

theorem doInit_order_last :
    Initialised ⟨0x10, fun _ => 0x20, fun _ => by decide⟩
      (((doInitStores ⟨0x10, fun _ => 0x20, fun _ => by decide⟩).take 31).foldl Store.apply
        ⟨fun _ => 7, fun _ => 7, fun _ _ => {}⟩) :=
  doInit_order (by decide) rfl

theorem doInit_finishes (placement : Placement) (block : ControlBlock) :
    Recognized (doInit placement block) ∧ Initialised placement (doInit placement block) := by
  have found : Recognized (doInit placement block) := rfl
  refine ⟨found, ?_⟩
  have ordered : Recognized (((doInitStores placement).take (doInitStores placement).length).foldl
    Store.apply block) → _ := doInit_order (Nat.succ_pos _)
  rw [List.take_length] at ordered
  exact ordered found

end Init

inductive BufferCall where
  | alloc (direction : Direction) (sName pBuffer bufferSize flags : Word)
  | config (direction : Direction) (bufferIndex : Nat) (sName pBuffer bufferSize flags : Word)
  | setName (direction : Direction) (bufferIndex : Nat) (sName : Word)
  | setFlags (direction : Direction) (bufferIndex : Nat) (flags : Word)

def BufferCall.run (placement : Placement) : BufferCall → ControlBlock → Int × ControlBlock
  | .alloc direction sName pBuffer bufferSize flags =>
      allocBuffer placement direction sName pBuffer bufferSize flags
  | .config direction bufferIndex sName pBuffer bufferSize flags =>
      configBuffer placement direction bufferIndex sName pBuffer bufferSize flags
  | .setName direction bufferIndex sName => setNameBuffer placement direction bufferIndex sName
  | .setFlags direction bufferIndex flags => setFlagsBuffer placement direction bufferIndex flags

def BufferCall.NotNull : BufferCall → Prop
  | .alloc _ _ pBuffer _ _ | .config _ _ _ pBuffer _ _ => pBuffer ≠ 0
  | .setName _ _ _ | .setFlags _ _ _ => True

def performCalls (placement : Placement) (block : ControlBlock) :
    List BufferCall → List (BufferCall × Int) × ControlBlock
  | [] => ([], block)
  | call :: rest =>
      let first := call.run placement block
      let others := performCalls placement first.2 rest
      ((call, first.1) :: others.1, others.2)

def allocated (direction : Direction) : BufferCall × Int → Option Int
  | (.alloc other _ _ _ _, result) => if other = direction ∧ 0 ≤ result then some result else none
  | _ => none

structure Ready (block : ControlBlock) : Prop where
  id : block.acID 0 = 0x53
  maxNum : ∀ direction, block.maxNumBuffers direction = 3
  first : ∀ direction, (block.buffers direction 0).pBuffer ≠ 0

section Calls

variable {placement : Placement} {block : ControlBlock}

theorem ready_init (placement : Placement) (known : Ready block ∨ block.acID 0 ≠ 0x53) :
    Ready (init placement block) := by
  by_cases unknown : block.acID 0 ≠ 0x53
  · rw [init, if_pos unknown]
    obtain ⟨found, initialised⟩ := doInit_finishes placement block
    refine ⟨rfl, fun direction => (initialised direction).1, fun direction => ?_⟩
    rw [(initialised direction).2.1]
    exact placement.notNull direction
  · rw [init, if_neg unknown]
    exact known.resolve_right unknown

theorem init_of_ready (ready : Ready block) : init placement block = block := by
  rw [init, if_neg (not_not.mpr ready.id)]

theorem setBuffer_buffers {direction other : Direction} {index position : Nat} {buffer : RttBuffer} :
    (block.setBuffer direction index buffer).buffers other position =
      if other = direction ∧ position = index then buffer else block.buffers other position := by
  simp only [ControlBlock.setBuffer, Function.update_apply]
  by_cases same : other = direction
  · subst same
    by_cases here : position = index
    · simp [here]
    · simp [here]
  · simp [same]

theorem ready_setBuffer {direction : Direction} {index : Nat} {buffer : RttBuffer}
    (ready : Ready block) (notNull : index = 0 → buffer.pBuffer ≠ 0) :
    Ready (block.setBuffer direction index buffer) := by
  refine ⟨ready.id, ready.maxNum, fun other => ?_⟩
  rw [setBuffer_buffers]
  split
  · exact notNull (Eq.symm ‹_ ∧ _›.2)
  · exact ready.first other

theorem searchUnused_spec (direction : Direction) (rounds index : Nat) (ready : Ready block)
    (enough : index + rounds = 3) :
    searchUnused block direction rounds index ≤ 3 ∧
      index ≤ searchUnused block direction rounds index ∧
      (searchUnused block direction rounds index < 3 →
        (block.buffers direction (searchUnused block direction rounds index)).pBuffer = 0) := by
  induction rounds generalizing index with
  | zero =>
      simp only [searchUnused]
      omega
  | succ rounds ih =>
      have limit := ready.maxNum direction
      simp only [searchUnused]
      by_cases unused : (block.buffers direction index).pBuffer = 0
      · rw [if_pos unused]
        exact ⟨by omega, Nat.le_refl _, fun _ => unused⟩
      rw [if_neg unused, limit]
      by_cases more : (index + 1 : Int) < 3
      · rw [if_pos more]
        obtain ⟨below, after, found⟩ := ih (index + 1) (by omega)
        exact ⟨below, by omega, found⟩
      · rw [if_neg more]
        exact ⟨by omega, by omega, fun inside => by omega⟩

theorem run_init {call : BufferCall} (ready : Ready (init placement block)) :
    call.run placement (init placement block) = call.run placement block := by
  cases call with
  | alloc direction sName pBuffer bufferSize flags =>
      simp only [BufferCall.run, allocBuffer, init_of_ready ready]
  | config direction bufferIndex sName pBuffer bufferSize flags =>
      simp only [BufferCall.run, configBuffer, changeBuffer, init_of_ready ready]
  | setName direction bufferIndex sName =>
      simp only [BufferCall.run, setNameBuffer, changeBuffer, init_of_ready ready]
  | setFlags direction bufferIndex flags =>
      simp only [BufferCall.run, setFlagsBuffer, changeBuffer, init_of_ready ready]

structure Kept (block after : ControlBlock) : Prop where
  ready : Ready after
  used : ∀ direction index, (block.buffers direction index).pBuffer ≠ 0 →
    (after.buffers direction index).pBuffer ≠ 0

theorem kept_setBuffer {direction : Direction} {index : Nat} {buffer : RttBuffer}
    (ready : Ready block)
    (notNull : (block.buffers direction index).pBuffer ≠ 0 → buffer.pBuffer ≠ 0) :
    Kept block (block.setBuffer direction index buffer) := by
  refine ⟨ready_setBuffer ready ?_, fun other position used => ?_⟩
  · rintro rfl
    exact notNull (ready.first direction)
  · rw [setBuffer_buffers]
    split
    · obtain ⟨rfl, rfl⟩ := ‹_ ∧ _›
      exact notNull used
    · exact used

theorem kept_changeBuffer {direction : Direction} {index : Nat} {change : RttBuffer → RttBuffer}
    (ready : Ready block)
    (notNull : (block.buffers direction index).pBuffer ≠ 0 →
      (change (block.buffers direction index)).pBuffer ≠ 0) :
    Kept block (changeBuffer placement direction index change block).2 := by
  simp only [changeBuffer, init_of_ready ready]
  split
  · exact kept_setBuffer ready notNull
  · exact ⟨ready, fun _ _ used => used⟩

theorem call_kept (placement : Placement) {call : BufferCall} (ready : Ready block)
    (notNull : call.NotNull) :
    Kept block (call.run placement block).2 := by
  cases call with
  | alloc direction sName pBuffer bufferSize flags =>
      simp only [BufferCall.run, allocBuffer, init_of_ready ready]
      split
      · exact kept_setBuffer ready fun _ => notNull
      · exact ⟨ready, fun _ _ used => used⟩
  | config direction bufferIndex sName pBuffer bufferSize flags =>
      refine kept_changeBuffer ready fun used => ?_
      split
      · exact notNull
      · exact used
  | setName direction bufferIndex sName => exact kept_changeBuffer ready fun used => used
  | setFlags direction bufferIndex flags => exact kept_changeBuffer ready fun used => used

theorem call_allocated {call : BufferCall} {direction : Direction} {result : Int} (ready : Ready block)
    (notNull : call.NotNull)
    (succeeds : allocated direction (call, (call.run placement block).1) = some result) :
    ∃ index < 3, result = (index : Nat) ∧ (block.buffers direction index).pBuffer = 0 ∧
      ((call.run placement block).2.buffers direction index).pBuffer ≠ 0 := by
  cases call with
  | alloc other sName pBuffer bufferSize flags =>
      have limit := ready.maxNum other
      obtain ⟨atMost, _, found⟩ :=
        searchUnused_spec other rttMaxNumBuffers 0 ready rfl
      simp only [BufferCall.run, allocBuffer, init_of_ready ready, limit, allocated] at succeeds ⊢
      generalize searchUnused block other rttMaxNumBuffers 0 = index at *
      by_cases inside : (index : Int) < 3
      · simp only [if_pos inside] at succeeds ⊢
        have below : index < 3 := by omega
        split at succeeds
        · obtain ⟨rfl, _⟩ := ‹_ ∧ _›
          refine ⟨index, below, (Option.some_inj.mp succeeds).symm, found below, ?_⟩
          rw [setBuffer_buffers, if_pos ⟨rfl, rfl⟩]
          exact notNull
        · cases succeeds
      · simp only [if_neg inside] at succeeds
        split at succeeds
        · omega
        · cases succeeds
  | config direction bufferIndex sName pBuffer bufferSize flags => cases succeeds
  | setName direction bufferIndex sName => cases succeeds
  | setFlags direction bufferIndex flags => cases succeeds

theorem performCalls_allocated (direction : Direction) {calls : List BufferCall} (ready : Ready block)
    (notNull : ∀ call ∈ calls, call.NotNull) :
    ((performCalls placement block calls).1.filterMap (allocated direction)).Nodup ∧
      ∀ result ∈ (performCalls placement block calls).1.filterMap (allocated direction),
        ∃ index < 3, result = (index : Nat) ∧ (block.buffers direction index).pBuffer = 0 := by
  induction calls generalizing block with
  | nil => simp [performCalls]
  | cons call rest ih =>
      have here := notNull call List.mem_cons_self
      have kept := call_kept placement ready here
      obtain ⟨nodup, unused⟩ := ih kept.ready fun other member =>
        notNull other (List.mem_cons_of_mem _ member)
      -- what the later calls take was not in use before
      have before : ∀ result ∈ (performCalls placement (call.run placement block).2 rest).1.filterMap
          (allocated direction), ∃ index < 3, result = (index : Nat) ∧
            (block.buffers direction index).pBuffer = 0 := by
        intro result member
        obtain ⟨index, below, same, free⟩ := unused result member
        refine ⟨index, below, same, ?_⟩
        by_contra used
        exact kept.used direction index used free
      simp only [performCalls]
      cases first : allocated direction (call, (call.run placement block).1) with
      | none =>
          rw [List.filterMap_cons_none first]
          exact ⟨nodup, before⟩
      | some result =>
          obtain ⟨index, below, same, free, taken⟩ := call_allocated ready here first
          rw [List.filterMap_cons_some first]
          refine ⟨List.nodup_cons.mpr ⟨?_, nodup⟩, ?_⟩
          · intro again
            obtain ⟨other, _, sameOther, freeOther⟩ := unused result again
            obtain rfl : index = other := by omega
            exact taken freeOther
          · intro other member
            rcases List.mem_cons.mp member with rfl | later
            · exact ⟨index, below, same, free⟩
            · exact before other later

/-- Whatever the order of the calls from a control block that is in use or not yet initialised, two
allocations never return the same buffer, and never the first one, which is the terminal. -/
theorem alloc_distinct {calls : List BufferCall} (direction : Direction)
    (known : Ready block ∨ block.acID 0 ≠ 0x53) (notNull : ∀ call ∈ calls, call.NotNull) :
    ((performCalls placement block calls).1.filterMap (allocated direction)).Nodup ∧
      ∀ result ∈ (performCalls placement block calls).1.filterMap (allocated direction),
        result = 1 ∨ result = 2 := by
  have ready := ready_init placement known
  have same : (performCalls placement (init placement block) calls).1 =
      (performCalls placement block calls).1 := by
    cases calls with
    | nil => rfl
    | cons call rest => simp only [performCalls, run_init ready]
  obtain ⟨nodup, unused⟩ := performCalls_allocated direction ready notNull
  rw [same] at nodup unused
  refine ⟨nodup, fun result member => ?_⟩
  obtain ⟨index, below, isIndex, free⟩ := unused result member
  have notFirst : index ≠ 0 := by
    rintro rfl
    exact ready.first direction free
  omega

theorem alloc_distinct_zeros :
    let results := (performCalls ⟨0x10, fun _ => 0x20, fun _ => by decide⟩
      ⟨fun _ => 0, fun _ => 0, fun _ _ => {}⟩
      (List.replicate 3 (.alloc .up 0 0x30 64 0))).1.filterMap (allocated .up)
    results = [1, 2] ∧ results.Nodup ∧ ∀ result ∈ results, result = 1 ∨ result = 2 := by
  refine ⟨by decide, alloc_distinct .up (Or.inr (by decide)) ?_⟩
  intro call member
  obtain rfl := List.eq_of_mem_replicate member
  exact show (0x30 : Word) ≠ 0 by decide

end Calls

end PicoToolkit.Rtt
