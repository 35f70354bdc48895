import PicoToolkit.Library.Stores
import PicoToolkit.Scheduler.State

/-!
What `scheduler_create` stores into the stack of a new task before it calls the supervisor: the fill
words, the control block, the first frame, the TLS block and the guard words between them.
-/

namespace PicoToolkit.StackLayout

open Memory

def schedulerTaskMarker : Word := 0x137aa731
def schedulerStackMarker : Word := 0x137cc731
def schedulerNoTlsInit : Word := 0x04
def schedulerNoFrameInit : Word := 0x08

def sizeofTask : Nat := 88
def sizeofSchedulerFrame : Nat := 72

/-- `ALIGNMENT_ROUND_TYPE(struct task, 8)`. -/
def roundedTask : Nat := (sizeofTask + 7) / 8 * 8

/-- The sections of the thread-local data as the linker has placed them: the zeroed ones follow the
initialised ones, perhaps after a gap that their alignment needs. -/
structure TlsLayout where
  tdata : List (BitVec 8)
  tbssOffset : Nat
  tbssSize : Nat
  ordered : tdata.length ≤ tbssOffset

namespace TlsLayout

variable (tls : TlsLayout)

/-- `__tls_size`. -/
def size : Nat := tls.tdata.length + tls.tbssSize

def extent : Nat := if tls.tbssSize = 0 then tls.tdata.length else tls.tbssOffset + tls.tbssSize

def initTls (address : Nat) : List Store :=
  [⟨address, tls.tdata⟩, ⟨address + tls.tbssOffset, List.replicate tls.tbssSize 0⟩]

theorem size_le_extent : tls.size ≤ tls.extent := by
  have ordered := tls.ordered
  unfold size extent
  split <;> omega

end TlsLayout

structure TaskDescriptor where
  entryPoint : Word
  exitHandler : Word
  context : Word
  flags : Word
  priority : Word
  affinity : Word

def fillStack (pos stop : Nat) : List Store :=
  if pos < stop then Store.word pos schedulerStackMarker :: fillStack (pos + 4) stop else []
  termination_by stop - pos

def pointer (address : Nat) : Word := BitVec.ofNat 32 address

def schedListInit (node : Nat) : List Store :=
  [Store.word node (pointer node), Store.word (node + 4) (pointer node)]

def taskStores (task : Nat) (descriptor : TaskDescriptor) : List Store :=
  [Store.word (task + 84) schedulerTaskMarker] ++
    schedListInit (task + 36) ++ schedListInit (task + 44) ++ schedListInit (task + 64) ++
    schedListInit (task + 52) ++
    [Store.word (task + 60) 0,
      Store.word (task + 32) (BitVec.ofNat 32 uint32Max),
      Store.word (task + 24) descriptor.priority,
      Store.word (task + 28) descriptor.priority,
      Store.word (task + 76) descriptor.exitHandler,
      Store.word (task + 80) descriptor.flags,
      Store.word (task + 72) descriptor.context,
      Store.word (task + 16) (BitVec.ofNat 32 uint32Max),
      Store.word (task + 20)
        (if flagSet descriptor.flags schedulerCoreAffinity then descriptor.affinity
        else BitVec.ofNat 32 uint32Max)]

def framePointer (stack stackSize : Nat) : Nat := (stack + stackSize - sizeofSchedulerFrame) / 8 * 8

def framePointer32 (stack stackSize : Nat) : Nat :=
  (stack + stackSize + (2 ^ 32 - sizeofSchedulerFrame)) % 2 ^ 32 / 8 * 8

def frameStores (psp : Nat) (descriptor : TaskDescriptor) : List Store :=
  [Store.word psp 0xfffffffd,
    Store.word (psp + 4) 2,
    Store.word (psp + 64) (descriptor.entryPoint &&& ~~~0x01),
    Store.word (psp + 60) 0,
    Store.word (psp + 68) 0x01000000,
    Store.word (psp + 40) descriptor.context]

def guardPointer (tls : TlsLayout) (stack : Nat) : Nat := stack + roundedTask + tls.size

/-- The stores to a stack that is filled up to an address and has its first frame at another one, in
their order. -/
def layoutStores (tls : TlsLayout) (stack stop psp : Nat) (descriptor : TaskDescriptor) :
    List Store :=
  (if flagSet descriptor.flags schedulerTaskStackCheck then fillStack stack stop else []) ++
  taskStores stack descriptor ++
  (if flagSet descriptor.flags schedulerNoFrameInit then []
    else Store.word stack (pointer psp) :: frameStores psp descriptor) ++
  (if flagSet descriptor.flags schedulerNoTlsInit then []
    else Store.word (stack + 4) (pointer (stack + roundedTask)) ::
      tls.initTls (stack + roundedTask) ++
      [Store.word (stack + 8) (pointer (guardPointer tls stack))])

def createStores (tls : TlsLayout) (stack stackSize : Nat) (descriptor : TaskDescriptor) :
    List Store :=
  layoutStores tls stack (stack + stackSize) (framePointer stack stackSize) descriptor

def schedulerCreate (tls : TlsLayout) (stack stackSize : Nat) (descriptor : TaskDescriptor) :
    List Store :=
  layoutStores tls stack ((stack + stackSize) % 2 ^ 32) (framePointer32 stack stackSize) descriptor

/-- `scheduler_check_stack`. -/
def schedulerCheckStack (memory : Bytes) (task : Nat) : Prop :=
  flagSet (load memory (task + 80)) schedulerTaskStackCheck = false ∨
    load memory (load memory (task + 8)).toNat = schedulerStackMarker ∧
      load memory ((load memory (task + 8)).toNat + 4) = schedulerStackMarker

def taskRegion (stack : Nat) : Region := ⟨stack, sizeofTask⟩

def tlsRegion (tls : TlsLayout) (stack : Nat) : Region := ⟨stack + roundedTask, tls.extent⟩

def guardRegion (tls : TlsLayout) (stack : Nat) : Region := ⟨guardPointer tls stack, 8⟩

def frameRegion (psp : Nat) : Region := ⟨psp, sizeofSchedulerFrame⟩

/-- What the layout of a new stack has to be: nothing is stored outside it, its parts are apart from each
other, and the check of its guard words succeeds, whatever the memory held. -/
structure Sound (tls : TlsLayout) (stack stackSize : Nat) (descriptor : TaskDescriptor) : Prop where
  inside : ∀ store ∈ schedulerCreate tls stack stackSize descriptor,
    store.region.Inside ⟨stack, stackSize⟩
  apart : [taskRegion stack, tlsRegion tls stack, guardRegion tls stack,
    frameRegion (framePointer32 stack stackSize)].Pairwise Region.Disjoint
  checked : ∀ memory : Bytes,
    schedulerCheckStack (memory.run (schedulerCreate tls stack stackSize descriptor)) stack

section Fill

theorem mem_fillStack {pos stop : Nat} {store : Store} (member : store ∈ fillStack pos stop) :
    ∃ index, store = Store.word (pos + 4 * index) schedulerStackMarker ∧ pos + 4 * index < stop := by
  fun_induction fillStack pos stop with
  | case1 pos below ih =>
      rcases List.mem_cons.mp member with rfl | later
      · exact ⟨0, rfl, by omega⟩
      · obtain ⟨index, same, within⟩ := ih later
        have next : pos + 4 + 4 * index = pos + 4 * (index + 1) := by omega
        exact ⟨index + 1, by rw [same, next], by omega⟩
  | case2 pos beyond => simp at member

theorem word_mem_fillStack {pos stop : Nat} (index : Nat) (below : pos + 4 * index < stop) :
    Store.word (pos + 4 * index) schedulerStackMarker ∈ fillStack pos stop := by
  induction index generalizing pos with
  | zero =>
      rw [fillStack, if_pos (by omega)]
      exact List.mem_cons_self
  | succ index ih =>
      have next : pos + 4 * (index + 1) = pos + 4 + 4 * index := by omega
      rw [fillStack, if_pos (by omega), next]
      exact List.mem_cons_of_mem _ (ih (by omega))

theorem load_fillStack {pos stop : Nat} (memory : Bytes) (index : Nat)
    (below : pos + 4 * index < stop) :
    load (memory.run (fillStack pos stop)) (pos + 4 * index) = schedulerStackMarker := by
  induction index generalizing pos memory with
  | zero =>
      rw [fillStack, if_pos (by omega), Bytes.run_cons]
      refine (Bytes.load_run_of_disjoint fun store member => ?_).trans
        (Bytes.load_after_word pos schedulerStackMarker)
      obtain ⟨later, rfl, _⟩ := mem_fillStack member
      exact (Region.disjoint_of_le (by simp only [Store.word_region]; omega)).symm
  | succ index ih =>
      have next : pos + 4 * (index + 1) = pos + 4 + 4 * index := by omega
      rw [fillStack, if_pos (by omega), Bytes.run_cons, next]
      exact ih _ (by omega)

end Fill

section Regions

variable {tls : TlsLayout} {stack stackSize : Nat} {descriptor : TaskDescriptor}

theorem word_inside {address : Nat} {value : Word} {region : Region} (lower : region.start ≤ address)
    (upper : address + 4 ≤ region.start + region.size) :
    (Store.word address value).region.Inside region :=
  (Region.inside_iff (by simp)).mpr ⟨lower, upper⟩

theorem taskStores_inside {store : Store} (member : store ∈ taskStores stack descriptor) :
    store.region.Inside (taskRegion stack) := by
  simp only [taskStores, schedListInit, List.mem_append, List.mem_cons, List.not_mem_nil, or_false]
    at member
  rcases member with ((((rfl | rfl | rfl) | rfl | rfl) | rfl | rfl) | rfl | rfl) |
    rfl | rfl | rfl | rfl | rfl | rfl | rfl | rfl | rfl <;>
    exact word_inside (by simp only [taskRegion]; omega) (by simp only [taskRegion, sizeofTask]; omega)

theorem frameStores_inside {psp : Nat} {store : Store} (member : store ∈ frameStores psp descriptor) :
    store.region.Inside ⟨psp, sizeofSchedulerFrame⟩ := by
  simp only [frameStores, List.mem_cons, List.not_mem_nil, or_false] at member
  rcases member with rfl | rfl | rfl | rfl | rfl | rfl <;>
    exact word_inside (by simp) (by simp [sizeofSchedulerFrame])

theorem initTls_inside {address : Nat} {store : Store} (member : store ∈ tls.initTls address) :
    store.region.Inside ⟨address, tls.extent⟩ := by
  have ordered := tls.ordered
  simp only [TlsLayout.initTls, List.mem_cons, List.not_mem_nil, or_false] at member
  rcases member with rfl | rfl
  · rintro byte ⟨lower, upper⟩
    simp only [Store.region] at lower upper
    refine ⟨lower, ?_⟩
    simp only [TlsLayout.extent]
    split <;> omega
  · rintro byte ⟨lower, upper⟩
    simp only [Store.region, List.length_replicate] at lower upper
    refine ⟨by simp only; omega, ?_⟩
    simp only [TlsLayout.extent]
    split <;> omega

def partStores (tls : TlsLayout) (stack psp : Nat) (descriptor : TaskDescriptor) : List Store :=
  taskStores stack descriptor ++
  (Store.word stack (pointer psp) :: frameStores psp descriptor) ++
  (Store.word (stack + 4) (pointer (stack + roundedTask)) :: tls.initTls (stack + roundedTask))

structure Plain (descriptor : TaskDescriptor) : Prop where
  checked : flagSet descriptor.flags schedulerTaskStackCheck = true
  frame : flagSet descriptor.flags schedulerNoFrameInit = false
  tls : flagSet descriptor.flags schedulerNoTlsInit = false

theorem Plain.layoutStores_eq (plain : Plain descriptor) {stop psp : Nat} :
    layoutStores tls stack stop psp descriptor =
      fillStack stack stop ++ (partStores tls stack psp descriptor ++
        [Store.word (stack + 8) (pointer (guardPointer tls stack))]) := by
  rw [layoutStores, plain.checked, plain.frame, plain.tls, if_pos rfl, if_neg Bool.false_ne_true,
    if_neg Bool.false_ne_true]
  simp only [partStores, List.append_assoc, List.cons_append]

theorem partStores_inside {psp : Nat} {store : Store}
    (member : store ∈ partStores tls stack psp descriptor) :
    store.region.Inside (taskRegion stack) ∨ store.region.Inside (tlsRegion tls stack) ∨
      store.region.Inside (frameRegion psp) := by
  simp only [partStores, List.mem_append, List.mem_cons] at member
  rcases member with (task | rfl | frame) | rfl | data
  · exact .inl (taskStores_inside task)
  · exact .inl (word_inside (by simp [taskRegion]) (by simp [taskRegion, sizeofTask]))
  · exact .inr (.inr (frameStores_inside frame))
  · exact .inl (word_inside (by simp [taskRegion]) (by simp [taskRegion, sizeofTask]))
  · exact .inr (.inl (initTls_inside data))

theorem schedulerCreate_eq (below : stack + stackSize < 2 ^ 32)
    (room : sizeofSchedulerFrame ≤ stack + stackSize) :
    framePointer32 stack stackSize = framePointer stack stackSize ∧
      schedulerCreate tls stack stackSize descriptor = createStores tls stack stackSize descriptor := by
  have frame : framePointer32 stack stackSize = framePointer stack stackSize := by
    simp only [framePointer32, framePointer, sizeofSchedulerFrame] at room ⊢
    omega
  exact ⟨frame, by rw [schedulerCreate, createStores, frame, Nat.mod_eq_of_lt below]⟩

end Regions

section Layout

variable {tls : TlsLayout} {stack stackSize : Nat} {descriptor : TaskDescriptor}

/-- The parts fit: the stack ends before the end of the memory, whole words are filled, the frame begins
behind the guard words, and the TLS data end before them. -/
structure Fits (tls : TlsLayout) (stack stackSize : Nat) : Prop where
  below : stack + stackSize < 2 ^ 32
  words : stackSize % 4 = 0
  frame : guardPointer tls stack + 8 ≤ framePointer stack stackSize
  data : tls.extent ≤ tls.size

theorem Fits.frame_end (fits : Fits tls stack stackSize) :
    framePointer stack stackSize + sizeofSchedulerFrame ≤ stack + stackSize := by
  have frame := fits.frame
  simp only [guardPointer, framePointer, roundedTask, sizeofTask, sizeofSchedulerFrame] at frame ⊢
  omega

theorem Fits.unreduced (fits : Fits tls stack stackSize) :
    framePointer32 stack stackSize = framePointer stack stackSize ∧
      schedulerCreate tls stack stackSize descriptor = createStores tls stack stackSize descriptor :=
  schedulerCreate_eq fits.below (Nat.le_trans (Nat.le_add_left _ _) fits.frame_end)

theorem Fits.apart (fits : Fits tls stack stackSize) :
    [taskRegion stack, tlsRegion tls stack, guardRegion tls stack,
      frameRegion (framePointer stack stackSize)].Pairwise Region.Disjoint := by
  have frame := fits.frame
  have data := fits.data
  simp only [guardPointer, roundedTask, sizeofTask] at frame
  simp only [List.pairwise_cons, List.mem_cons, List.not_mem_nil, or_false, forall_eq_or_imp,
    forall_eq, List.Pairwise.nil, and_true, false_implies, implies_true]
  refine ⟨⟨?_, ?_, ?_⟩, ⟨?_, ?_⟩, ?_⟩ <;>
    refine Region.disjoint_of_le ?_ <;>
    simp only [taskRegion, tlsRegion, guardRegion, frameRegion, guardPointer, roundedTask,
      sizeofTask] <;>
    omega

theorem Fits.partStores (fits : Fits tls stack stackSize) {store : Store}
    (member : store ∈ partStores tls stack (framePointer stack stackSize) descriptor) :
    store.region.Inside ⟨stack, stackSize⟩ := by
  have upper := fits.frame_end
  have frame := fits.frame
  have data := fits.data
  simp only [guardPointer, roundedTask, sizeofTask] at frame
  rcases partStores_inside member with task | block | first
  · intro address inside
    obtain ⟨after, before⟩ := task address inside
    simp only [taskRegion, sizeofTask] at after before
    exact ⟨after, by simp only; omega⟩
  · intro address inside
    obtain ⟨after, before⟩ := block address inside
    simp only [tlsRegion, roundedTask, sizeofTask] at after before
    exact ⟨by simp only; omega, by simp only; omega⟩
  · intro address inside
    obtain ⟨after, before⟩ := first address inside
    simp only [frameRegion] at after before
    exact ⟨by simp only; omega, by simp only; omega⟩

theorem load_guard_of_apart {psp : Nat}
    (apart : [taskRegion stack, tlsRegion tls stack, guardRegion tls stack,
      frameRegion psp].Pairwise Region.Disjoint) (memory : Bytes) {address : Nat}
    (lower : guardPointer tls stack ≤ address) (upper : address + 4 ≤ guardPointer tls stack + 8) :
    load (memory.run (partStores tls stack psp descriptor ++
      [Store.word (stack + 8) (pointer (guardPointer tls stack))])) address =
        load memory address := by
  simp only [List.pairwise_cons, List.mem_cons, List.not_mem_nil, or_false, forall_eq_or_imp,
    forall_eq] at apart
  obtain ⟨⟨_, taskGuard, _⟩, ⟨dataGuard, _⟩, guardFrame, _⟩ := apart
  have inside : (⟨address, 4⟩ : Region).Inside (guardRegion tls stack) :=
    (Region.inside_iff (by simp)).mpr ⟨lower, upper⟩
  refine Bytes.load_run_of_disjoint fun store member => ?_
  rcases List.mem_append.mp member with part | final
  · rcases partStores_inside part with task | block | first
    · exact ((taskGuard.of_inside task).symm.of_inside inside).symm
    · exact ((dataGuard.of_inside block).symm.of_inside inside).symm
    · exact ((guardFrame.symm.of_inside first).symm.of_inside inside).symm
  · obtain rfl := List.mem_singleton.mp final
    simp only [guardPointer, roundedTask, sizeofTask] at lower
    exact Region.disjoint_of_le (by simp only [Store.word_region]; omega)

theorem load_flags_of_apart {psp : Nat}
    (apart : [taskRegion stack, tlsRegion tls stack, guardRegion tls stack,
      frameRegion psp].Pairwise Region.Disjoint) (memory : Bytes) :
    load (memory.run (partStores tls stack psp descriptor ++
      [Store.word (stack + 8) (pointer (guardPointer tls stack))])) (stack + 80) =
        descriptor.flags := by
  simp only [List.pairwise_cons, List.mem_cons, List.not_mem_nil, or_false, forall_eq_or_imp,
    forall_eq] at apart
  obtain ⟨⟨taskData, _, taskFrame⟩, _⟩ := apart
  have inside : (⟨stack + 80, 4⟩ : Region).Inside (taskRegion stack) :=
    (Region.inside_iff (by simp)).mpr ⟨by simp [taskRegion], by simp [taskRegion, sizeofTask]⟩
  have word {address : Nat} {value : Word} (far : address + 4 ≤ stack + 80) :
      (Store.word address value).region.Disjoint ⟨stack + 80, 4⟩ :=
    Region.disjoint_of_le (by simp only [Store.word_region]; omega)
  simp only [partStores, taskStores, List.append_assoc, Bytes.run_append, Bytes.run_cons,
    Bytes.run_nil]
  rw [Bytes.load_after_of_disjoint (word (by omega)), Bytes.load_run_of_disjoint,
    Bytes.load_after_of_disjoint (word (by omega)), Bytes.load_run_of_disjoint,
    Bytes.load_after_of_disjoint (word (by omega)), Bytes.load_after_of_disjoint (word (by omega)),
    Bytes.load_after_of_disjoint (word (by omega)), Bytes.load_after_of_disjoint (word (by omega)),
    Bytes.load_after_word]
  · exact fun store member => ((taskFrame.of_inside inside).symm.of_inside (frameStores_inside member))
  · exact fun store member => ((taskData.of_inside inside).symm.of_inside (initTls_inside member))

theorem load_guardPointer {psp : Nat} (memory : Bytes) (below : guardPointer tls stack < 2 ^ 32) :
    (load (memory.run (partStores tls stack psp descriptor ++
      [Store.word (stack + 8) (pointer (guardPointer tls stack))])) (stack + 8)).toNat =
        guardPointer tls stack := by
  rw [Bytes.run_append, Bytes.run_cons, Bytes.run_nil, Bytes.load_after_word, pointer,
    BitVec.toNat_ofNat, Nat.mod_eq_of_lt below]

theorem Fits.load_guard (fits : Fits tls stack stackSize) (plain : Plain descriptor)
    (words : tls.size % 4 = 0) (memory : Bytes) {address : Nat} (aligned : address % 4 = stack % 4)
    (lower : guardPointer tls stack ≤ address) (upper : address + 4 ≤ guardPointer tls stack + 8) :
    load (memory.run (createStores tls stack stackSize descriptor)) address =
      schedulerStackMarker := by
  have last := fits.frame_end
  have frame := fits.frame
  have reached : stack ≤ address := by
    simp only [guardPointer] at lower
    omega
  obtain ⟨index, reaches⟩ : ∃ index, stack + 4 * index = address := ⟨(address - stack) / 4, by omega⟩
  rw [createStores, plain.layoutStores_eq, Bytes.run_append, load_guard_of_apart fits.apart _ lower upper,
    ← reaches, load_fillStack _ index (by omega)]

theorem Fits.sound (fits : Fits tls stack stackSize) (plain : Plain descriptor)
    (words : tls.size % 4 = 0) : Sound tls stack stackSize descriptor := by
  have last := fits.frame_end
  have frame := fits.frame
  have below := fits.below
  obtain ⟨unreduced, stores⟩ := @Fits.unreduced tls stack stackSize descriptor fits
  refine ⟨fun store member => ?_, unreduced ▸ fits.apart, fun memory => .inr ?_⟩
  · rw [stores, createStores, plain.layoutStores_eq] at member
    simp only [guardPointer, roundedTask, sizeofTask] at frame
    rcases List.mem_append.mp member with filled | member
    · obtain ⟨index, rfl, below⟩ := mem_fillStack filled
      have whole := fits.words
      exact word_inside (by simp only; omega) (by simp only; omega)
    · rcases List.mem_append.mp member with part | final
      · exact fits.partStores part
      · obtain rfl := List.mem_singleton.mp final
        exact word_inside (by simp only; omega) (by simp only; omega)
  · have pointed : (load (memory.run (createStores tls stack stackSize descriptor))
        (stack + 8)).toNat = guardPointer tls stack := by
      rw [createStores, plain.layoutStores_eq, Bytes.run_append, load_guardPointer _ (by omega)]
    have aligned : guardPointer tls stack % 4 = stack % 4 := by
      simp only [guardPointer, roundedTask, sizeofTask]
      omega
    rw [stores, pointed]
    exact ⟨fits.load_guard plain words memory aligned (Nat.le_refl _) (by omega),
      fits.load_guard plain words memory (by omega) (by omega) (by omega)⟩

theorem Sound.frame (sound : Sound tls stack stackSize descriptor) (plain : Plain descriptor) :
    guardPointer tls stack + 8 ≤ framePointer32 stack stackSize ∧
      framePointer32 stack stackSize + sizeofSchedulerFrame ≤ stack + stackSize := by
  have longer := tls.size_le_extent
  have within : ∀ store ∈ frameStores (framePointer32 stack stackSize) descriptor,
      store.region.Inside ⟨stack, stackSize⟩ := by
    intro store member
    refine sound.inside store ?_
    rw [schedulerCreate, plain.layoutStores_eq, partStores]
    simp [member]
  have first := (Region.inside_iff (by simp)).mp
    (within (Store.word (framePointer32 stack stackSize) 0xfffffffd) (by simp [frameStores]))
  have last := (Region.inside_iff (by simp)).mp
    (within (Store.word (framePointer32 stack stackSize + 68) 0x01000000) (by simp [frameStores]))
  have apart := sound.apart
  simp only [List.pairwise_cons, List.mem_cons, List.not_mem_nil, or_false, forall_eq_or_imp,
    forall_eq] at apart
  obtain ⟨⟨_, _, taskFrame⟩, ⟨_, dataFrame⟩, guardFrame, _⟩ := apart
  have behindTask := (Region.disjoint_iff (by simp [taskRegion, sizeofTask])
    (by simp [frameRegion, sizeofSchedulerFrame])).mp taskFrame
  have besideGuard := (Region.disjoint_iff (by simp [guardRegion])
    (by simp [frameRegion, sizeofSchedulerFrame])).mp guardFrame
  simp only [Store.word_region] at first last
  simp only [taskRegion, guardRegion, frameRegion, guardPointer, roundedTask, sizeofTask,
    sizeofSchedulerFrame] at behindTask besideGuard ⊢
  by_cases empty : tls.extent = 0
  · omega
  · have besideData := (Region.disjoint_iff (by simp only [tlsRegion]; omega)
      (by simp [frameRegion, sizeofSchedulerFrame])).mp dataFrame
    simp only [tlsRegion, frameRegion, roundedTask, sizeofTask, sizeofSchedulerFrame] at besideData
    omega

theorem Sound.enough (sound : Sound tls stack stackSize descriptor) (plain : Plain descriptor) :
    roundedTask + tls.size + sizeofSchedulerFrame + 8 ≤ stackSize := by
  obtain ⟨lower, upper⟩ := sound.frame plain
  simp only [guardPointer] at lower
  omega

/-- A stack whose end is beyond the memory is not filled, so that its guard words hold no marker. -/
theorem Sound.below (sound : Sound tls stack stackSize descriptor) (plain : Plain descriptor)
    (bound : stackSize < 2 ^ 32) : stack + stackSize < 2 ^ 32 := by
  by_contra beyond
  obtain ⟨lower, _⟩ := sound.frame plain
  have small : framePointer32 stack stackSize < 2 ^ 32 := by
    simp only [framePointer32]
    omega
  have unfilled : fillStack stack ((stack + stackSize) % 2 ^ 32) = [] := by
    rw [fillStack, if_neg (by omega)]
  have stores : schedulerCreate tls stack stackSize descriptor =
      partStores tls stack (framePointer32 stack stackSize) descriptor ++
        [Store.word (stack + 8) (pointer (guardPointer tls stack))] := by
    rw [schedulerCreate, plain.layoutStores_eq, unfilled, List.nil_append]
  rcases stores ▸ sound.checked fun _ => 0 with unchecked | ⟨first, _⟩
  · rw [load_flags_of_apart sound.apart, plain.checked] at unchecked
    cases unchecked
  · rw [load_guardPointer _ (by omega), load_guard_of_apart sound.apart _ (Nat.le_refl _) (by omega)]
      at first
    have marked : (0 : Word) = schedulerStackMarker := by
      rw [← first, load]
      decide
    exact absurd marked (by decide)

/-- In a stack that is large enough but for roundings, the layout is sound only if its parts fit. -/
theorem Sound.fits (sound : Sound tls stack stackSize descriptor) (plain : Plain descriptor)
    (aligned : stack % 4 = 0) (bound : stackSize < 2 ^ 32) : Fits tls stack stackSize := by
  have below := sound.below plain bound
  have enough := sound.enough plain
  obtain ⟨frame, _⟩ := sound.frame plain
  obtain ⟨unreduced, stores⟩ := @schedulerCreate_eq tls stack stackSize descriptor below (by omega)
  have apart := sound.apart
  simp only [List.pairwise_cons, List.mem_cons, List.not_mem_nil, or_false, forall_eq_or_imp,
    forall_eq] at apart
  obtain ⟨_, ⟨dataGuard, _⟩, guardFrame, _⟩ := apart
  simp only [roundedTask, sizeofTask, sizeofSchedulerFrame] at enough
  refine ⟨below, ?_, unreduced ▸ frame, ?_⟩
  · have last : stack + 4 * ((stackSize - 1) / 4) < stack + stackSize := by omega
    have within := sound.inside _ (by
      rw [stores, createStores, plain.layoutStores_eq]
      exact List.mem_append_left _ (word_mem_fillStack ((stackSize - 1) / 4) last))
    have bounds := (Region.inside_iff (by simp)).mp within
    simp only [Store.word_region] at bounds
    omega
  · by_contra longer
    have occupied : 0 < (tlsRegion tls stack).size := by simp only [tlsRegion]; omega
    have cases := (Region.disjoint_iff occupied (by simp [guardRegion])).mp dataGuard
    simp only [tlsRegion, guardRegion, guardPointer] at cases
    omega

end Layout

end PicoToolkit.StackLayout
