import PicoToolkit.Cmsis.PoolCreation

/-!
The bytes of a message survive: the queue in memory does what a bounded list of messages by priority
does, except that it copies as many bytes as the rounded size.
-/

namespace PicoToolkit

open Memory Ring Transition

abbrev Mail : Type := Message (List (BitVec 8))

namespace Mailbox

def inVain (timeout : Word) : Option OsStatus :=
  if timeout = 0 then some .osErrorResource
  else if timeout = osWaitForever then none
  else some .osErrorTimeout

def overwrite (buffer : Bytes) (content : List (BitVec 8)) : Bytes := fun index =>
  content.getD index (buffer index)

def call (capacity size : Nat) (mails : List Mail) :
    Context × BufferCall → Option (Returned × List Mail)
  | (context, .osMessageQueuePut source priority timeout) =>
      if osKernelContextIsValid true timeout context ≠ .osOK then
        some (⟨osKernelContextIsValid true timeout context, source, none⟩, mails)
      else if mails.length < capacity then
        some (⟨.osOK, source, none⟩, mails.orderedInsert (fun new old => new.priority > old.priority)
          ⟨priority, bytesAt source 0 size⟩)
      else (inVain timeout).map fun status => (⟨status, source, none⟩, mails)
  | (context, .osMessageQueueGet destination timeout) =>
      if osKernelContextIsValid true timeout context ≠ .osOK then
        some (⟨osKernelContextIsValid true timeout context, destination, none⟩, mails)
      else
        match mails with
        | mail :: rest =>
            some (⟨.osOK, overwrite destination mail.content, some mail.priority⟩, rest)
        | [] => (inVain timeout).map fun status => (⟨status, destination, none⟩, mails)

end Mailbox

namespace ByteQueue

variable {queue : ByteQueue} {index other : Nat}

/-- Where `osMessageQueueNew` puts a queue, if no size wraps around. -/
structure Placed (queue : ByteQueue) : Prop where
  aligned : queue.blockSize = (queue.blockSize + 3) &&& ~~~3
  sized : 16 + queue.msgSize.toNat < 2 ^ 32
  present : queue.poolData ≠ 0
  fits : queue.poolData.toNat + (16 + queue.msgSize.toNat) * queue.msgCount.toNat < 2 ^ 32
  head : queue.messages + 8 ≤ 2 ^ 32
  apart : queue.messages + 8 ≤ queue.poolData.toNat ∨
    queue.poolData.toNat + (16 + queue.msgSize.toNat) * queue.msgCount.toNat ≤ queue.messages

def block (queue : ByteQueue) (index : Nat) : Word :=
  queue.poolData + BitVec.ofNat 32 index * queue.blockSize

def begin_ (queue : ByteQueue) (index : Nat) : Nat :=
  queue.poolData.toNat + index * (16 + queue.msgSize.toNat)

theorem Placed.toNat_blockSize (placed : queue.Placed) :
    queue.blockSize.toNat = 16 + queue.msgSize.toNat := by
  rw [blockSize, BitVec.toNat_add]
  exact Nat.mod_eq_of_lt placed.sized

def Placed.pool (placed : queue.Placed) : RtosMemoryPool where
  value := queue.control + 260
  futex := queue.control + 228
  poolData := queue.poolData
  blockSize := queue.blockSize
  capacity := queue.msgCount
  aligned := placed.aligned
  present := placed.present
  fits := placed.toNat_blockSize ▸ placed.fits

theorem Placed.toNat_block (placed : queue.Placed) (below : index < queue.msgCount.toNat) :
    (queue.block index).toNat = queue.begin_ index := by
  have placedAt := @RtosMemoryPool.toNat_block placed.pool index below
  rw [begin_, ← placed.toNat_blockSize]
  exact placedAt

theorem begin_apart (different : index ≠ other) :
    queue.begin_ index + (16 + queue.msgSize.toNat) ≤ queue.begin_ other ∨
      queue.begin_ other + (16 + queue.msgSize.toNat) ≤ queue.begin_ index := by
  simp only [begin_]
  rcases Nat.lt_or_gt_of_ne different with less | greater
  · have gap : (index + 1) * (16 + queue.msgSize.toNat) ≤ other * (16 + queue.msgSize.toNat) :=
      Nat.mul_le_mul_right _ less
    rw [Nat.add_mul] at gap
    omega
  · have gap : (other + 1) * (16 + queue.msgSize.toNat) ≤ index * (16 + queue.msgSize.toNat) :=
      Nat.mul_le_mul_right _ greater
    rw [Nat.add_mul] at gap
    omega

theorem begin_bound (below : index < queue.msgCount.toNat) :
    queue.begin_ index + (16 + queue.msgSize.toNat) ≤
      queue.poolData.toNat + (16 + queue.msgSize.toNat) * queue.msgCount.toNat := by
  have gap : (index + 1) * (16 + queue.msgSize.toNat) ≤
      queue.msgCount.toNat * (16 + queue.msgSize.toNat) := Nat.mul_le_mul_right _ below
  rw [Nat.add_mul] at gap
  rw [begin_, Nat.mul_comm _ queue.msgCount.toNat]
  omega

theorem le_begin : queue.poolData.toNat ≤ queue.begin_ index := Nat.le_add_right _ _

theorem Placed.block_ne_zero (placed : queue.Placed) (below : index < queue.msgCount.toNat) :
    queue.block index ≠ 0 :=
  @RtosMemoryPool.ne_zero_of_mem placed.pool _ (RtosMemoryPool.mem_blocks.mpr ⟨index, below, rfl⟩)

def Placed.layout (placed : queue.Placed) : Layout Unit (Fin queue.msgCount.toNat) where
  address
    | .head _ => queue.messages
    | .node index => queue.begin_ index + nodeOffset
  apart := by
    rintro (⟨⟩ | first) (⟨⟩ | second) different
    · exact (different rfl).elim
    · have bound := begin_bound second.isLt
      have above := @le_begin queue second
      have apart := placed.apart
      simp only [nodeOffset]
      omega
    · have bound := begin_bound first.isLt
      have above := @le_begin queue first
      have apart := placed.apart
      simp only [nodeOffset]
      omega
    · have apart := @begin_apart queue first second fun same => different (by rw [Fin.ext same])
      simp only [nodeOffset]
      omega
  bounded := by
    rintro (⟨⟩ | index)
    · exact placed.head
    · have bound := begin_bound index.isLt
      have fits := placed.fits
      simp only [nodeOffset]
      omega

theorem Placed.outside (placed : queue.Placed) (index : Fin queue.msgCount.toNat) {offset : Nat}
    (inside : offset < 16 + queue.msgSize.toNat) (apart : offset < 4 ∨ 12 ≤ offset) :
    placed.layout.Outside (queue.begin_ index + offset) := by
  have bound := begin_bound index.isLt
  have above := @le_begin queue index
  rintro (⟨⟩ | node)
  · have apartHead := placed.apart
    simp only [layout]
    omega
  · simp only [layout, nodeOffset]
    by_cases same : node = index
    · subst same
      omega
    · have apartBlocks := @begin_apart queue node index fun eq => same (Fin.ext eq)
      omega

def Listed {count : Nat} (messages : List (Fin count)) (node : Node Unit (Fin count)) : Prop :=
  node = .head () ∨ ∃ index ∈ messages, node = .node index

/-- The memory of a queue with these messages, in the blocks of a list, and with the rest of its
blocks free. -/
structure Keeps (placed : queue.Placed) (state : ByteStore) (mails : List Mail)
    (messages free : List (Fin queue.msgCount.toNat)) (links : Links Unit (Fin queue.msgCount.toNat))
    (mail : Fin queue.msgCount.toNat → Mail) : Prop where
  every : (messages ++ free).Perm (List.finRange queue.msgCount.toNat)
  ring : links.Represents fun _ => messages
  holds : placed.layout.Holds state.memory links (Listed messages)
  threads : Stack.Threads (fun block => load state.memory block.toNat) 0 state.freeList
    (free.map fun index : Fin _ => queue.block index)
  priority : ∀ index ∈ messages,
    load state.memory (queue.begin_ index) = (mail index).priority.setWidth 32
  content : ∀ index ∈ messages,
    bytesAt state.memory (queue.begin_ index + dataOffset) queue.msgSize.toNat = (mail index).content
  mails : mails = messages.map mail
  poolValue : state.poolValue.toNat = free.length
  dataValue : state.dataValue.toNat = messages.length

namespace Keeps

variable {placed : queue.Placed} {state : ByteStore} {mails : List Mail}
  {messages free : List (Fin queue.msgCount.toNat)} {links : Links Unit (Fin queue.msgCount.toNat)}
  {mail : Fin queue.msgCount.toNat → Mail}

theorem nodup (keeps : Keeps placed state mails messages free links mail) :
    (messages ++ free).Nodup :=
  keeps.every.nodup_iff.mpr (List.nodup_finRange _)

theorem length (keeps : Keeps placed state mails messages free links mail) :
    messages.length + free.length = queue.msgCount.toNat := by
  rw [← List.length_append, keeps.every.length_eq, List.length_finRange]

end Keeps

theorem insertionNode_eq {placed : queue.Placed} {memory : Bytes}
    {links : Links Unit (Fin queue.msgCount.toNat)}
    {rest : List (Fin queue.msgCount.toNat)} {within : Node Unit (Fin queue.msgCount.toNat) → Prop}
    {node : Node Unit (Fin queue.msgCount.toNat)} {priority : Word} {fuel : Nat}
    (holds : placed.layout.Holds memory links within)
    (inside : ∀ index ∈ rest, within (.node index))
    (path : links.Path node rest (.head ())) (enough : rest.length < fuel) :
    insertionNode memory queue.messages priority fuel (placed.layout.address (links.next node)) =
      some (placed.layout.address ((rest.find? fun index : Fin _ =>
        decide (priority > load memory (queue.begin_ index))).elim (.head ()) .node)) := by
  induction rest generalizing node fuel with
  | nil =>
      obtain ⟨fuel, rfl⟩ := Nat.exists_eq_succ_of_ne_zero (Nat.ne_of_gt enough)
      have atHead : placed.layout.address (.head ()) = queue.messages := rfl
      rw [show links.next node = .head () from path, insertionNode, if_pos atHead]
      rfl
  | cons first rest ih =>
      obtain ⟨fuel, rfl⟩ := Nat.exists_eq_succ_of_ne_zero (Nat.ne_of_gt (Nat.zero_lt_of_lt enough))
      have notHead : placed.layout.address (.node first) ≠ queue.messages := by
        intro same
        cases placed.layout.address_inj (show _ = placed.layout.address (.head ()) from same)
      have nextFirst := (holds _ (inside first List.mem_cons_self)).1
      rw [path.1, insertionNode, if_neg notHead, List.find?_cons]
      have atBegin : placed.layout.address (.node first) - nodeOffset = queue.begin_ first :=
        Nat.add_sub_cancel _ _
      rw [atBegin, nextFirst, Layout.toNat_pointer]
      by_cases lower : priority > load memory (queue.begin_ first)
      · rw [if_pos lower, decide_eq_true lower]
        rfl
      · rw [if_neg lower, decide_eq_false lower]
        exact ih (fun index member => inside index (List.mem_cons_of_mem _ member)) path.2
          (Nat.lt_of_succ_lt_succ enough)

section LoadMessage

variable {placed : queue.Placed} {memory source : Bytes} {block : Fin queue.msgCount.toNat}
  {priority : BitVec 8}

theorem Placed.toNat_blockOf (placed : queue.Placed) (block : Fin queue.msgCount.toNat) :
    (queue.block block).toNat = queue.begin_ block := placed.toNat_block block.isLt

theorem loadMessage_of_outside (placed : queue.Placed) {address : Nat}
    (outside : address < queue.begin_ block ∨
      queue.begin_ block + (16 + queue.msgSize.toNat) ≤ address) :
    queue.loadMessage memory (queue.block block) source priority address = memory address := by
  simp only [loadMessage, placed.toNat_blockOf, nodeOffset, dataOffset]
  rw [memcpy_of_apart (by omega), store_of_apart (by omega), listInit, setListPrev,
    store_of_apart (by omega), setListNext, store_of_apart (by omega)]

theorem load_loadMessage (placed : queue.Placed) :
    load (queue.loadMessage memory (queue.block block) source priority) (queue.begin_ block) =
      priority.setWidth 32 := by
  simp only [loadMessage, placed.toNat_blockOf]
  rw [load_congr fun other _ _ => memcpy_of_apart (by simp only [dataOffset]; omega)]
  exact load_store_self

theorem bytesAt_loadMessage (placed : queue.Placed) :
    bytesAt (queue.loadMessage memory (queue.block block) source priority)
      (queue.begin_ block + dataOffset) queue.msgSize.toNat =
        bytesAt source 0 queue.msgSize.toNat := by
  simp only [loadMessage, placed.toNat_blockOf]
  exact bytesAt_memcpy

theorem holds_loadMessage {links : Links Unit (Fin queue.msgCount.toNat)}
    {messages : List (Fin queue.msgCount.toNat)}
    (holds : placed.layout.Holds memory links (Listed messages))
    (ring : links.Represents fun _ => messages) (fresh : block ∉ messages) :
    placed.layout.Holds (queue.loadMessage memory (queue.block block) source priority) links
      fun node => node = .node block ∨ Listed messages node := by
  have next : links.next (.node block) = .node block := ring.loose block fun _ => fresh
  have prev : links.prev (.node block) = .node block := by
    have back := ring.prev_next (.node block)
    rwa [next] at back
  refine (holds.init next prev).congr ?_
  intro node _ address above below
  simp only [loadMessage, placed.toNat_blockOf]
  have startOutside : ∀ offset, offset < 4 → placed.layout.Outside (queue.begin_ block + offset) :=
    fun offset small => placed.outside block (by omega) (Or.inl small)
  rw [memcpy_of_apart ?_, store_of_apart ?_]
  · rfl
  · by_contra inside
    have outside := startOutside (address - queue.begin_ block) (by omega) node
    omega
  · by_contra inside
    have outside := placed.outside block
      (show address - queue.begin_ block < 16 + queue.msgSize.toNat by
        simp only [dataOffset] at inside
        omega)
      (Or.inr (by simp only [dataOffset] at inside; omega)) node
    simp only [dataOffset] at inside
    omega

end LoadMessage

theorem setWidth_lt_iff {left right : BitVec 8} :
    left.setWidth 32 > right.setWidth 32 ↔ left > right := by
  simp only [GT.gt, BitVec.lt_def, BitVec.toNat_setWidth]
  omega

theorem insertEntry_find_eq_orderedInsert {E : Type} [DecidableEq E] (before : E → E → Prop)
    [DecidableRel before] (element : E) (elements : List E) :
    insertEntry (elements.find? fun x => decide (before element x)) element elements =
      elements.orderedInsert before element := by
  induction elements with
  | nil => rfl
  | cons first rest ih =>
      rw [insertEntry_find_cons, List.orderedInsert, ih]
      by_cases isBefore : before element first
      · rw [if_pos (decide_eq_true isBefore), if_pos isBefore]
      · rw [if_neg (by simpa using isBefore), if_neg isBefore]

/-- A block with the same priority, or link of the free list, and the same bytes of its message. -/
def SameBlock (after before : Bytes) (index : Fin queue.msgCount.toNat) : Prop :=
  load after (queue.begin_ index) = load before (queue.begin_ index) ∧
    bytesAt after (queue.begin_ index + dataOffset) queue.msgSize.toNat =
      bytesAt before (queue.begin_ index + dataOffset) queue.msgSize.toNat

theorem SameBlock.trans {first second third : Bytes} {index : Fin queue.msgCount.toNat}
    (later : SameBlock third second index) (earlier : SameBlock second first index) :
    SameBlock third first index :=
  ⟨later.1.trans earlier.1, later.2.trans earlier.2⟩

/-- What a list operation leaves of the blocks. -/
theorem sameBlock_of_outside {before after : Bytes} (placed : queue.Placed)
    (same : ∀ address, placed.layout.Outside address → after address = before address)
    (index : Fin queue.msgCount.toNat) : SameBlock after before index := by
  constructor
  · refine load_congr fun address above below => same address ?_
    obtain ⟨offset, rfl⟩ := Nat.exists_eq_add_of_le above
    exact placed.outside index (by omega) (Or.inl (by omega))
  · refine bytesAt_congr fun address above below => same address ?_
    simp only [dataOffset] at above below
    obtain ⟨offset, rfl⟩ := Nat.exists_eq_add_of_le above
    rw [Nat.add_assoc]
    exact placed.outside index (by omega) (Or.inr (by omega))

theorem sameBlock_of_ne {before after : Bytes} {block index : Fin queue.msgCount.toNat}
    (same : ∀ address, (address < queue.begin_ block ∨
      queue.begin_ block + (16 + queue.msgSize.toNat) ≤ address) → after address = before address)
    (different : index ≠ block) : SameBlock after before index := by
  have apart := @begin_apart queue index block fun same => different (Fin.ext same)
  constructor
  · exact load_congr fun address above below => same address (by omega)
  · refine bytesAt_congr fun address above below => same address ?_
    simp only [dataOffset] at above below
    omega

theorem sameBlock_loadMessage {memory source : Bytes} {priority : BitVec 8}
    {block index : Fin queue.msgCount.toNat} (placed : queue.Placed) (different : index ≠ block) :
    SameBlock (queue.loadMessage memory (queue.block block) source priority) memory index :=
  sameBlock_of_ne (fun _ => loadMessage_of_outside placed) different

section Entry

variable {block : Fin queue.msgCount.toNat} {messages : List (Fin queue.msgCount.toNat)}

def loaded (queue : ByteQueue) (block : Fin queue.msgCount.toNat) (source : Bytes)
    (priority : BitVec 8) (mail : Fin queue.msgCount.toNat → Mail) : Fin queue.msgCount.toNat → Mail :=
  Function.update mail block ⟨priority, bytesAt source 0 queue.msgSize.toNat⟩

/-- The entry that a loaded message goes before, if it does not go to the end. -/
def entryAfter (queue : ByteQueue) (memory : Bytes) (block : Fin queue.msgCount.toNat)
    (messages : List (Fin queue.msgCount.toNat)) : Option (Fin queue.msgCount.toNat) :=
  messages.find? fun index =>
    decide (load memory (queue.begin_ block) > load memory (queue.begin_ index))

def nodeAfter (queue : ByteQueue) (memory : Bytes) (block : Fin queue.msgCount.toNat)
    (messages : List (Fin queue.msgCount.toNat)) : Node Unit (Fin queue.msgCount.toNat) :=
  (queue.entryAfter memory block messages).elim (.head ()) .node

theorem mem_of_entryAfter {memory : Bytes} :
    ∀ index ∈ queue.entryAfter memory block messages, index ∈ messages :=
  fun _ isFound => List.mem_of_find?_eq_some isFound

theorem insertEntry_entryAfter (memory : Bytes) :
    insertEntry (queue.entryAfter memory block messages) block messages =
      messages.orderedInsert (fun new old : Fin _ =>
        load memory (queue.begin_ new) > load memory (queue.begin_ old)) block :=
  insertEntry_find_eq_orderedInsert (fun new old : Fin _ =>
    load memory (queue.begin_ new) > load memory (queue.begin_ old)) block messages

theorem listed_nodeAfter (memory : Bytes) :
    Listed messages (queue.nodeAfter memory block messages) := by
  cases isFound : queue.entryAfter memory block messages with
  | none => exact Or.inl (by rw [nodeAfter, isFound, Option.elim_none])
  | some index =>
      exact Or.inr ⟨index, mem_of_entryAfter index isFound,
        by rw [nodeAfter, isFound, Option.elim_some]⟩

theorem ne_of_listed (fresh : block ∉ messages) {entry : Node Unit (Fin queue.msgCount.toNat)}
    (listed : Listed messages entry) : Node.node block ≠ entry := by
  rintro rfl
  rcases listed with atHead | ⟨index, inside, atNode⟩
  · cases atHead
  · cases atNode
    exact fresh inside

end Entry

namespace Keeps

variable {placed : queue.Placed} {state : ByteStore} {mails : List Mail}
  {messages free : List (Fin queue.msgCount.toNat)} {links : Links Unit (Fin queue.msgCount.toNat)}
  {mail : Fin queue.msgCount.toNat → Mail}

section Put

variable {block : Fin queue.msgCount.toNat} {rest : List (Fin queue.msgCount.toNat)} {source : Bytes}
  {priority : BitVec 8}

theorem fresh (keeps : Keeps placed state mails messages (block :: rest) links mail) :
    block ∉ messages := fun inside =>
  (List.nodup_append.mp keeps.nodup).2.2 block inside block List.mem_cons_self rfl

theorem ne_of_mem_free (keeps : Keeps placed state mails messages (block :: rest) links mail)
    {index : Fin queue.msgCount.toNat} (inside : index ∈ rest) : index ≠ block := by
  rintro rfl
  exact (List.nodup_cons.mp (List.nodup_append.mp keeps.nodup).2.1).1 inside

theorem ne_of_mem_messages (keeps : Keeps placed state mails messages (block :: rest) links mail)
    {index : Fin queue.msgCount.toNat} (inside : index ∈ messages) : index ≠ block := by
  rintro rfl
  exact keeps.fresh inside

theorem loaded_of_mem (keeps : Keeps placed state mails messages (block :: rest) links mail)
    {index : Fin queue.msgCount.toNat} (inside : index ∈ messages) :
    queue.loaded block source priority mail index = mail index :=
  Function.update_of_ne (keeps.ne_of_mem_messages inside) _ _

/-- The new message and the old ones are in their blocks before the list changes. -/
theorem holds_loaded (keeps : Keeps placed state mails messages (block :: rest) links mail)
    {index : Fin queue.msgCount.toNat} (member : index = block ∨ index ∈ messages) :
    let memory := queue.loadMessage state.memory (queue.block block) source priority
    load memory (queue.begin_ index) =
        (queue.loaded block source priority mail index).priority.setWidth 32 ∧
      bytesAt memory (queue.begin_ index + dataOffset) queue.msgSize.toNat =
        (queue.loaded block source priority mail index).content := by
  rcases member with rfl | inside
  · rw [loaded, Function.update_self]
    exact ⟨load_loadMessage placed, bytesAt_loadMessage placed⟩
  · obtain ⟨sameLoad, sameBytes⟩ :=
      sameBlock_loadMessage placed (keeps.ne_of_mem_messages inside)
    rw [keeps.loaded_of_mem inside]
    exact ⟨sameLoad.trans (keeps.priority index inside),
      sameBytes.trans (keeps.content index inside)⟩

theorem ne_prev_of_listed (keeps : Keeps placed state mails messages (block :: rest) links mail)
    {entry : Node Unit (Fin queue.msgCount.toNat)} (listed : Listed messages entry) :
    Node.node block ≠ links.prev entry := by
  intro same
  have loose : links.next (.node block) = .node block := keeps.ring.loose block fun _ => keeps.fresh
  have back := keeps.ring.next_prev entry
  rw [← same, loose] at back
  exact ne_of_listed keeps.fresh listed back

theorem insertionNode_put (keeps : Keeps placed state mails messages (block :: rest) links mail) :
    let memory := queue.loadMessage state.memory (queue.block block) source priority
    insertionNode memory queue.messages (load memory (queue.begin_ block)) (queue.msgCount.toNat + 1)
        (listNext memory queue.messages).toNat =
      some (placed.layout.address (queue.nodeAfter memory block messages)) := by
  intro memory
  have holds : placed.layout.Holds memory links
      fun node => node = .node block ∨ Listed messages node :=
    holds_loadMessage keeps.holds keeps.ring keeps.fresh
  have firstNode : (listNext memory queue.messages).toNat =
      placed.layout.address (links.next (.head ())) := by
    rw [← Layout.toNat_pointer, ← (holds (.head ()) (Or.inr (Or.inl rfl))).1]
    rfl
  rw [firstNode]
  refine insertionNode_eq holds (fun index member => Or.inr (Or.inr ⟨index, member, rfl⟩))
    (keeps.ring.ring ()) ?_
  have length := keeps.length
  simp only [List.length_cons] at length
  omega

theorem mails_put (keeps : Keeps placed state mails messages (block :: rest) links mail) :
    let memory := queue.loadMessage state.memory (queue.block block) source priority
    mails.orderedInsert (fun new old => new.priority > old.priority)
        ⟨priority, bytesAt source 0 queue.msgSize.toNat⟩ =
      (messages.orderedInsert (fun new old : Fin _ =>
        load memory (queue.begin_ new) > load memory (queue.begin_ old)) block).map
          (queue.loaded block source priority mail) := by
  intro memory
  have order : ∀ first second, (first = block ∨ first ∈ messages) →
      (second = block ∨ second ∈ messages) →
      (load memory (queue.begin_ first) > load memory (queue.begin_ second) ↔
        (queue.loaded block source priority mail first).priority >
          (queue.loaded block source priority mail second).priority) := by
    intro first second firstIn secondIn
    rw [show load memory (queue.begin_ first) = _ from (keeps.holds_loaded firstIn).1,
      show load memory (queue.begin_ second) = _ from (keeps.holds_loaded secondIn).1]
    exact setWidth_lt_iff
  rw [List.map_orderedInsert _ (fun new old : Mail => new.priority > old.priority)
    (queue.loaded block source priority mail)]
  · rw [List.map_congr_left fun index inside => keeps.loaded_of_mem inside, ← keeps.mails, loaded,
      Function.update_self]
  · exact fun index inside => order index block (Or.inr inside) (Or.inl rfl)
  · exact fun index inside => order block index (Or.inl rfl) (Or.inr inside)

theorem put (keeps : Keeps placed state mails messages (block :: rest) links mail) :
    let memory := queue.loadMessage state.memory (queue.block block) source priority
    ∃ entry, insertionNode memory queue.messages (load memory (queue.begin_ block))
        (queue.msgCount.toNat + 1) (listNext memory queue.messages).toNat = some entry ∧
      bytesAt (listInsertBefore memory entry (queue.begin_ block + nodeOffset))
        (queue.begin_ block + dataOffset) queue.msgSize.toNat =
          bytesAt source 0 queue.msgSize.toNat ∧
      ∃ messages links mail, Keeps placed
        ⟨listInsertBefore memory entry (queue.begin_ block + nodeOffset),
          load state.memory (queue.begin_ block), state.poolValue - 1, state.dataValue + 1⟩
        (mails.orderedInsert (fun new old => new.priority > old.priority)
          ⟨priority, bytesAt source 0 queue.msgSize.toNat⟩) messages rest links mail := by
  intro memory
  have listed : Listed messages (queue.nodeAfter memory block messages) := listed_nodeAfter memory
  have notEntry := ne_of_listed keeps.fresh listed
  have holds : placed.layout.Holds memory links
      fun node => node = .node block ∨ Listed messages node :=
    holds_loadMessage keeps.holds keeps.ring keeps.fresh
  have members : ∀ index, index ∈ insertEntry (queue.entryAfter memory block messages) block messages ↔
      index = block ∨ index ∈ messages := fun index => mem_insertEntry
  have frame := sameBlock_of_outside placed fun address =>
    @Layout.listInsertBefore_of_outside _ _ placed.layout memory links (.node block) _ _ _ _
      address holds (Or.inr listed) notEntry
  refine ⟨_, keeps.insertionNode_put, (frame block).2.trans (bytesAt_loadMessage placed),
    insertEntry (queue.entryAfter memory block messages) block messages,
    links.linkBefore (queue.nodeAfter memory block messages) (.node block),
    queue.loaded block source priority mail, ?_⟩
  constructor
  · refine List.Perm.trans ?_ keeps.every
    rw [insertEntry_entryAfter]
    refine ((List.perm_orderedInsert _ block messages).append_right rest).trans ?_
    exact List.perm_middle.symm
  · have inserted : (links.linkBefore (queue.nodeAfter memory block messages) (.node block)).Represents
        (Function.update (fun _ => messages) ()
          (insertEntry (queue.entryAfter memory block messages) block messages)) :=
      keeps.ring.insertEntry mem_of_entryAfter fun _ => keeps.fresh
    refine cast (congrArg _ ?_) inserted
    funext list
    exact Function.update_self ..
  · intro node member
    refine holds.insertBefore (Or.inr listed) notEntry (keeps.ne_prev_of_listed listed) node ?_
    rcases member with rfl | ⟨index, inside, rfl⟩
    · exact Or.inr (Or.inl rfl)
    · rcases (members index).mp inside with rfl | old
      · exact Or.inl rfl
      · exact Or.inr (Or.inr ⟨index, old, rfl⟩)
  · obtain ⟨_, _, threads⟩ := keeps.threads
    simp only [placed.toNat_blockOf] at threads
    refine threads.congr ?_
    intro cell member
    obtain ⟨index, inside, rfl⟩ := List.mem_map.mp member
    rw [placed.toNat_blockOf]
    exact (frame index).1.trans (sameBlock_loadMessage placed (keeps.ne_of_mem_free inside)).1
  · intro index inside
    exact (frame index).1.trans (keeps.holds_loaded ((members index).mp inside)).1
  · intro index inside
    exact (frame index).2.trans (keeps.holds_loaded ((members index).mp inside)).2
  · rw [insertEntry_entryAfter]
    exact keeps.mails_put
  · have value := keeps.poolValue
    simp only [List.length_cons] at value
    rw [toNat_pred (fun zero => by simp [zero] at value), value]
    exact Nat.add_sub_cancel _ _
  · have length := keeps.length
    have value := keeps.dataValue
    have small := queue.msgCount.isLt
    simp only [List.length_cons] at length
    rw [toNat_succ (show state.dataValue < queue.msgCount from BitVec.lt_def.mpr (by omega)), value,
      insertEntry_entryAfter, List.orderedInsert_length]

end Put

section Get

variable {block : Fin queue.msgCount.toNat} {rest : List (Fin queue.msgCount.toNat)}

theorem ne_of_mem_rest (keeps : Keeps placed state mails (block :: rest) free links mail)
    {index : Fin queue.msgCount.toNat} (inside : index ∈ rest) : index ≠ block := by
  rintro rfl
  exact (List.nodup_cons.mp keeps.nodup).1 (List.mem_append_left _ inside)

theorem listPop_first (keeps : Keeps placed state mails (block :: rest) free links mail) :
    listPop state.memory queue.messages =
      (some (queue.begin_ block + nodeOffset),
        listRemove state.memory (queue.begin_ block + nodeOffset)) := by
  have first : listNext state.memory queue.messages = placed.layout.pointer (.node block) := by
    rw [← show links.next (.head ()) = .node block from (keeps.ring.ring ()).1]
    exact (keeps.holds (.head ()) (Or.inl rfl)).1
  have notEmpty : listIsEmpty state.memory queue.messages = false := by
    refine decide_eq_false fun empty => ?_
    cases Layout.pointer_inj.mp
      (first.symm.trans (show _ = placed.layout.pointer (.head ()) from empty.1))
  rw [listPop, notEmpty, first, Layout.toNat_pointer]
  rfl

theorem ring_unlink (keeps : Keeps placed state mails (block :: rest) free links mail) :
    (links.unlink (.node block)).Represents fun _ => rest := by
  refine cast (congrArg _ ?_) (keeps.ring.unlink block)
  funext list
  rw [List.filter_cons_of_neg (by simp), List.filter_eq_self]
  intro index inside
  simpa using keeps.ne_of_mem_rest inside

theorem get (keeps : Keeps placed state mails (block :: rest) free links mail) :
    let memory := listRemove state.memory (queue.begin_ block + nodeOffset)
    listPop state.memory queue.messages = (some (queue.begin_ block + nodeOffset), memory) ∧
      load memory (queue.begin_ block) = (mail block).priority.setWidth 32 ∧
      bytesAt memory (queue.begin_ block + dataOffset) queue.msgSize.toNat = (mail block).content ∧
      ∃ links, Keeps placed
        ⟨store memory (queue.begin_ block) state.freeList, queue.block block, state.poolValue + 1,
          state.dataValue - 1⟩ (rest.map mail) rest (block :: free) links mail := by
  intro memory
  have listed : Listed (block :: rest) (.node block) := Or.inr ⟨block, List.mem_cons_self, rfl⟩
  have notNext : links.next (.node block) ≠ .node block :=
    keeps.ring.next_ne_self () List.mem_cons_self
  have frame := sameBlock_of_outside placed fun address =>
    @Layout.listRemove_of_outside _ _ placed.layout state.memory links (.node block) _ _ _ address
      keeps.holds listed notNext
  -- the link of the free list is no part of a node, or of another block
  have linked : ∀ address, (address < queue.begin_ block ∨ queue.begin_ block + 4 ≤ address) →
      store memory (queue.begin_ block) state.freeList address = memory address :=
    fun address apart => store_of_apart apart
  have elsewhere : ∀ index, index ≠ block →
      SameBlock (store memory (queue.begin_ block) state.freeList) state.memory index :=
    fun index different =>
      (sameBlock_of_ne (fun address apart => linked address (by omega)) different).trans (frame index)
  refine ⟨keeps.listPop_first, (frame block).1.trans (keeps.priority block List.mem_cons_self),
    (frame block).2.trans (keeps.content block List.mem_cons_self), links.unlink (.node block), ?_⟩
  constructor
  · exact List.perm_middle.trans keeps.every
  · exact keeps.ring_unlink
  · have removed : placed.layout.Holds memory (links.unlink (.node block)) (Listed rest) := by
      intro node member
      refine keeps.holds.remove listed notNext node ?_
      rcases member with rfl | ⟨index, inside, rfl⟩
      · exact Or.inl rfl
      · exact Or.inr ⟨index, List.mem_cons_of_mem _ inside, rfl⟩
    refine removed.congr ?_
    intro node _ address above below
    refine linked address ?_
    by_contra inside
    have outside := placed.outside block
      (show address - queue.begin_ block < 16 + queue.msgSize.toNat by omega)
      (Or.inl (by omega)) node
    omega
  · refine ⟨rfl, placed.block_ne_zero block.isLt, ?_⟩
    simp only [placed.toNat_blockOf, load_store_self]
    refine keeps.threads.congr ?_
    intro cell member
    obtain ⟨index, inside, rfl⟩ := List.mem_map.mp member
    have different : index ≠ block := by
      rintro rfl
      exact (List.nodup_cons.mp keeps.nodup).1 (List.mem_append_right _ inside)
    simp only [placed.toNat_blockOf]
    exact (elsewhere index different).1
  · intro index inside
    exact (elsewhere index (keeps.ne_of_mem_rest inside)).1.trans
      (keeps.priority index (List.mem_cons_of_mem _ inside))
  · intro index inside
    exact (elsewhere index (keeps.ne_of_mem_rest inside)).2.trans
      (keeps.content index (List.mem_cons_of_mem _ inside))
  · rfl
  · have length := keeps.length
    have value := keeps.poolValue
    have small := queue.msgCount.isLt
    simp only [List.length_cons] at length
    rw [toNat_succ (show state.poolValue < queue.msgCount from BitVec.lt_def.mpr (by omega)), value]
    rfl
  · have value := keeps.dataValue
    simp only [List.length_cons] at value
    rw [toNat_pred (fun zero => by simp [zero] at value), value]
    exact Nat.add_sub_cancel _ _

end Get

end Keeps

theorem contextIsValid_zero (context : Context) : osKernelContextIsValid true 0 context = .osOK := by
  cases context with
  | thread => rfl
  | handler => rfl

def Holding (placed : queue.Placed) (state : ByteStore) (mails : List Mail) : Prop :=
  ∃ messages free links mail, Keeps placed state mails messages free links mail

theorem eq_zero_iff_length {value : Word} {E : Type} {elements : List E}
    (counted : value.toNat = elements.length) : value = 0 ↔ elements = [] := by
  rw [← List.length_eq_zero_iff, ← counted, BitVec.toNat_eq]
  rfl

theorem noToken_ne_osOK (timeout : Word) : noToken timeout ≠ .osOK := by
  rw [noToken]
  split
  · decide
  · decide

theorem inVain_eq (timeout : Word) :
    Mailbox.inVain timeout = if timeout = osWaitForever then none else some (noToken timeout) := by
  rw [Mailbox.inVain, noToken]
  by_cases poll : timeout = 0
  · subst poll
    rfl
  · rw [if_neg poll, if_neg poll]

theorem osSemaphoreAcquire_zero {timeout : Word} {context : Context}
    (valid : osKernelContextIsValid true timeout context = .osOK) :
    osSemaphoreAcquire 0 timeout context = (Mailbox.inVain timeout).map fun status => (status, 0) := by
  rw [osSemaphoreAcquire, if_neg (fun failed => failed valid), if_neg (fun other => other rfl),
    Mailbox.inVain]
  split
  · rfl
  · split
    · rfl
    · rfl

theorem osSemaphoreAcquire_of_ne_zero {value timeout : Word} {context : Context}
    (valid : osKernelContextIsValid true timeout context = .osOK) (positive : value ≠ 0) :
    osSemaphoreAcquire value timeout context = some (.osOK, value - 1) := by
  rw [osSemaphoreAcquire, if_neg (fun failed => failed valid), if_pos positive]

theorem osSemaphoreRelease_of_lt {maxCount value : Word} (context : Context)
    (below : value.toNat < maxCount.toNat) :
    osSemaphoreRelease maxCount value context = (.osOK, value + 1) := by
  rw [osSemaphoreRelease, if_neg (fun failed => failed (contextIsValid_zero context)),
    if_neg (by rw [BitVec.le_def]; omega)]

section Calls

variable {placed : queue.Placed} {state : ByteStore} {mails : List Mail} {timeout : Word}
  {context : Context} {source destination : Bytes} {priority : BitVec 8}
  {messages free : List (Fin queue.msgCount.toNat)} {links : Links Unit (Fin queue.msgCount.toNat)}
  {mail : Fin queue.msgCount.toNat → Mail}

theorem osMessageQueuePut_full (valid : osKernelContextIsValid true timeout context = .osOK)
    (full : state.poolValue = 0) :
    queue.osMessageQueuePut state source priority timeout context =
      (Mailbox.inVain timeout).map fun status => (status, state) := by
  rw [osMessageQueuePut, if_neg (fun failed => failed valid), osMemoryPoolAlloc,
    if_neg (fun failed => failed valid), full, osSemaphoreAcquire_zero valid, inVain_eq]
  by_cases forever : timeout = osWaitForever
  · rw [if_pos forever]
    rfl
  · rw [if_neg forever]
    simp only [Option.map_some, Option.bind_some, if_pos (noToken_ne_osOK timeout), ← full]
    rfl

theorem osMessageQueuePut_free {block : Fin queue.msgCount.toNat}
    {rest : List (Fin queue.msgCount.toNat)}
    (keeps : Keeps placed state mails messages (block :: rest) links mail)
    (valid : osKernelContextIsValid true timeout context = .osOK) :
    ∃ next, queue.osMessageQueuePut state source priority timeout context = some (.osOK, next) ∧
      bytesAt next.memory (queue.begin_ block + dataOffset) queue.msgSize.toNat =
        bytesAt source 0 queue.msgSize.toNat ∧
      Holding placed next (mails.orderedInsert (fun new old => new.priority > old.priority)
        ⟨priority, bytesAt source 0 queue.msgSize.toNat⟩) := by
  have positive : state.poolValue ≠ 0 := by
    rw [ne_eq, eq_zero_iff_length keeps.poolValue]
    exact List.cons_ne_nil _ _
  have head : state.freeList = queue.block block := keeps.threads.1
  have length := keeps.length
  have value := keeps.dataValue
  simp only [List.length_cons] at length
  obtain ⟨entry, found, copied, messages, links, mail, next⟩ :=
    @Keeps.put _ _ _ _ _ _ _ _ _ source priority keeps
  refine ⟨_, ?_, copied, messages, rest, links, mail, next⟩
  rw [osMessageQueuePut, if_neg (fun failed => failed valid), osMemoryPoolAlloc,
    if_neg (fun failed => failed valid), osSemaphoreAcquire_of_ne_zero valid positive]
  simp only [Option.map_some, ne_eq, not_true_eq_false, if_false, Option.bind_some, head,
    if_neg (placed.block_ne_zero block.isLt), placed.toNat_blockOf, found]
  rw [osSemaphoreRelease_of_lt context (by omega)]
  rfl

theorem osMessageQueueGet_empty (valid : osKernelContextIsValid true timeout context = .osOK)
    (empty : state.dataValue = 0) :
    queue.osMessageQueueGet state destination timeout context =
      (Mailbox.inVain timeout).map fun status => (⟨status, destination, none⟩, state) := by
  rw [osMessageQueueGet, if_neg (fun failed => failed valid), empty, osSemaphoreAcquire_zero valid,
    inVain_eq]
  by_cases forever : timeout = osWaitForever
  · rw [if_pos forever]
    rfl
  · rw [if_neg forever]
    simp only [Option.map_some, if_pos (noToken_ne_osOK timeout), ← empty]

theorem memcpy_eq_overwrite {memory : Bytes} {address size : Nat} {content : List (BitVec 8)}
    (same : bytesAt memory address size = content) :
    memcpy destination 0 memory address size = Mailbox.overwrite destination content := by
  funext index
  subst same
  rw [memcpy_apply, Mailbox.overwrite, bytesAt]
  by_cases inside : index < size
  · rw [if_pos ⟨Nat.zero_le _, by omega⟩]
    simp [inside]
  · rw [if_neg (by omega)]
    simp [inside]

theorem lowByte (priority : BitVec 8) : (priority.setWidth 32 &&& 0xff).setWidth 8 = priority := by
  rw [BitVec.setWidth_and, BitVec.setWidth_setWidth_of_le _ (by decide), BitVec.setWidth_eq]
  exact BitVec.and_allOnes

theorem osMessageQueueGet_first {block : Fin queue.msgCount.toNat}
    {rest : List (Fin queue.msgCount.toNat)}
    (keeps : Keeps placed state mails (block :: rest) free links mail)
    (valid : osKernelContextIsValid true timeout context = .osOK) :
    ∃ next, queue.osMessageQueueGet state destination timeout context =
        some (⟨.osOK, Mailbox.overwrite destination (mail block).content,
          some (mail block).priority⟩, next) ∧
      Holding placed next (rest.map mail) := by
  have positive : state.dataValue ≠ 0 := by
    rw [ne_eq, eq_zero_iff_length keeps.dataValue]
    exact List.cons_ne_nil _ _
  have length := keeps.length
  have value := keeps.poolValue
  simp only [List.length_cons] at length
  obtain ⟨popped, isPriority, isContent, links, next⟩ := keeps.get
  have inside : ¬(queue.block block < queue.poolData ∨
      queue.block block > queue.poolData + queue.blockSize * queue.msgCount) := by
    have inRange := @RtosMemoryPool.inRange_of_mem placed.pool _
      (RtosMemoryPool.mem_blocks.mpr ⟨block, block.isLt, rfl⟩)
    simp only [RtosMemoryPool.inRange, Bool.not_eq_true', Bool.or_eq_false_iff,
      decide_eq_false_iff_not] at inRange
    exact not_or.mpr inRange
  have isBlock : BitVec.ofNat 32 (queue.begin_ block) = queue.block block := by
    rw [← placed.toNat_blockOf, BitVec.ofNat_toNat, BitVec.setWidth_eq]
  refine ⟨_, ?_, rest, block :: free, links, mail, next⟩
  rw [osMessageQueueGet, if_neg (fun failed => failed valid),
    osSemaphoreAcquire_of_ne_zero valid positive]
  simp only [Option.map_some, ne_eq, not_true_eq_false, if_false, popped, Nat.add_sub_cancel,
    isBlock, osMemoryPoolFree, contextIsValid_zero, if_neg inside, placed.toNat_blockOf, isPriority,
    memcpy_eq_overwrite isContent]
  rw [osSemaphoreRelease_of_lt context (by omega)]
  simp only [not_true_eq_false, if_false, lowByte]

theorem call_holding {input : Context × BufferCall} (holding : Holding placed state mails) :
    Option.Rel (fun left right => left.1 = right.1 ∧ Holding placed left.2 right.2)
      (queue.call state input)
      (Mailbox.call queue.msgCount.toNat queue.msgSize.toNat mails input) := by
  obtain ⟨messages, free, links, mail, keeps⟩ := id holding
  have length := keeps.length
  have mailsLength : mails.length = messages.length := by rw [keeps.mails, List.length_map]
  obtain ⟨context, call⟩ := input
  cases call with
  | osMessageQueuePut source priority timeout =>
      rw [ByteQueue.call, Mailbox.call]
      by_cases valid : osKernelContextIsValid true timeout context = .osOK
      · rw [if_neg (fun failed => failed valid)]
        cases free with
        | nil =>
            have full : state.poolValue = 0 := (eq_zero_iff_length keeps.poolValue).mpr rfl
            simp only [List.length_nil, Nat.add_zero] at length
            rw [osMessageQueuePut_full valid full,
              if_neg (show ¬mails.length < queue.msgCount.toNat by omega), inVain_eq]
            by_cases forever : timeout = osWaitForever
            · rw [if_pos forever]
              exact .none
            · rw [if_neg forever]
              exact .some ⟨rfl, holding⟩
        | cons block rest =>
            simp only [List.length_cons] at length
            obtain ⟨next, moved, _, follows⟩ := @osMessageQueuePut_free _ _ _ _ timeout context source
              priority _ _ _ _ _ keeps valid
            rw [moved, if_pos (show mails.length < queue.msgCount.toNat by omega)]
            exact .some ⟨rfl, follows⟩
      · rw [if_pos valid, osMessageQueuePut, if_pos valid]
        exact .some ⟨rfl, holding⟩
  | osMessageQueueGet destination timeout =>
      simp only [ByteQueue.call, Mailbox.call]
      by_cases valid : osKernelContextIsValid true timeout context = .osOK
      · rw [if_neg (fun failed => failed valid)]
        cases messages with
        | nil =>
            have empty : state.dataValue = 0 := (eq_zero_iff_length keeps.dataValue).mpr rfl
            have none : mails = [] := keeps.mails
            rw [osMessageQueueGet_empty valid empty, none, inVain_eq]
            by_cases forever : timeout = osWaitForever
            · rw [if_pos forever]
              exact .none
            · rw [if_neg forever]
              exact .some ⟨rfl, none ▸ holding⟩
        | cons block rest =>
            obtain ⟨next, moved, follows⟩ := @osMessageQueueGet_first _ _ _ _ timeout context
              destination _ _ _ _ _ keeps valid
            rw [moved, keeps.mails, List.map_cons]
            exact .some ⟨rfl, follows⟩
      · rw [if_pos valid, osMessageQueueGet, if_pos valid]
        exact .some ⟨rfl, holding⟩

end Calls

/-- No size wraps around: not the rounded one, and not that of the queue with its blocks. -/
structure Unwrapped (msgCount msgSize : Word) : Prop where
  rounded : msgSize.toNat + 3 < 2 ^ 32
  whole : 312 + (16 + ((msgSize + 3) &&& ~~~3).toNat) * msgCount.toNat < 2 ^ 32

/-- The pieces of memory are such: what the caller provides is two pieces, and what the allocator
returns is as long as it was asked for. -/
structure Provided (attr : MessageQueueAttr) (alloc : Word → Word) : Prop where
  control : attr.cbMem ≠ 0 → attr.cbMem.toNat + attr.cbSize.toNat < 2 ^ 32
  data : attr.mqMem ≠ 0 → attr.mqMem.toNat + attr.mqSize.toNat < 2 ^ 32
  apart : attr.cbMem ≠ 0 → attr.mqMem ≠ 0 →
    attr.cbMem.toNat + attr.cbSize.toNat ≤ attr.mqMem.toNat ∨
      attr.mqMem.toNat + attr.mqSize.toNat ≤ attr.cbMem.toNat
  alloc : ∀ size, alloc size ≠ 0 → (alloc size).toNat + size.toNat < 2 ^ 32

theorem threadBlocks_threads (placed : queue.Placed) (memory : Bytes) {count : Nat}
    (within : count ≤ queue.msgCount.toNat) :
    Stack.Threads
        (fun block => load (threadBlocks queue.poolData queue.blockSize memory count).1 block.toNat)
        0 (threadBlocks queue.poolData queue.blockSize memory count).2
        ((List.range count).reverse.map queue.block) ∧
      ∀ address, (∀ index < queue.msgCount.toNat,
          address < queue.begin_ index ∨ queue.begin_ index + 4 ≤ address) →
        (threadBlocks queue.poolData queue.blockSize memory count).1 address = memory address := by
  have size := placed.toNat_blockSize
  have fits : queue.poolData.toNat + queue.blockSize.toNat * queue.msgCount.toNat ≤ 2 ^ 32 := by
    rw [size]
    exact Nat.le_of_lt placed.fits
  obtain ⟨threads, same⟩ := @MemoryPool.threadBlocks_threads memory _ _ _ _ placed.present
    (by omega) fits within
  refine ⟨threads, fun address outside => same address fun index below => ?_⟩
  have place : (MemoryPool.block queue.poolData queue.blockSize index).toNat = queue.begin_ index :=
    placed.toNat_block below
  rw [place]
  exact outside index below

theorem holding_new (placed : queue.Placed) (memory : Bytes) :
    Holding placed
      ⟨(threadBlocks queue.poolData queue.blockSize (listInit memory queue.messages)
          queue.msgCount.toNat).1,
        (threadBlocks queue.poolData queue.blockSize (listInit memory queue.messages)
          queue.msgCount.toNat).2, queue.msgCount, 0⟩ [] := by
  obtain ⟨threads, same⟩ := threadBlocks_threads placed (listInit memory queue.messages) (Nat.le_refl _)
  refine ⟨[], (List.finRange queue.msgCount.toNat).reverse, Links.empty, fun _ => ⟨0, []⟩, ?_⟩
  constructor
  · exact List.reverse_perm _
  · exact Links.empty_represents
  · have nowhere : placed.layout.Holds memory Links.empty fun _ => False := fun _ => False.elim
    have begins := @Layout.Holds.init _ _ placed.layout memory Links.empty (.head ()) _ _ _ nowhere
      rfl rfl
    rintro node (rfl | ⟨_, inside, _⟩)
    · refine begins.congr ?_ (.head ()) (Or.inl rfl)
      intro node isHead address above below
      obtain rfl : node = .head () := isHead.resolve_right False.elim
      refine same address fun index inside => ?_
      have apart := placed.layout.apart (.head ()) (.node ⟨index, inside⟩) (by simp)
      have bound := begin_bound inside
      have above' := @le_begin queue index
      have apartHead := placed.apart
      simp only [Placed.layout] at above below
      omega
    · cases inside
  · have places : (List.finRange queue.msgCount.toNat).map (fun index : Fin _ => queue.block index) =
        (List.range queue.msgCount.toNat).map queue.block := by
      rw [← List.map_coe_finRange_eq_range, List.map_map]
      rfl
    rw [List.map_reverse, places, ← List.map_reverse]
    exact threads
  · exact fun index inside => by cases inside
  · exact fun index inside => by cases inside
  · rfl
  · simp
  · rfl

theorem room_fits {msgCount msgSize control poolData poolSize : Word} {attr : MessageQueueAttr}
    {alloc : Word → Word}
    (isRoom : room msgCount ((msgSize + 3) &&& ~~~3) attr alloc = some (control, poolData, poolSize))
    (positive : msgCount ≠ 0) (unwrapped : Unwrapped msgCount msgSize)
    (provided : Provided attr alloc) :
    let rounded := ((msgSize + 3) &&& ~~~3).toNat
    16 + rounded < 2 ^ 32 ∧ (control + 292).toNat + 8 ≤ 2 ^ 32 ∧
      ((control + 292).toNat + 8 ≤ poolData.toNat ∨
        poolData.toNat + (16 + rounded) * msgCount.toNat ≤ (control + 292).toNat) ∧
      poolData.toNat + (16 + rounded) * msgCount.toNat < 2 ^ 32 := by
  intro rounded
  have whole : 312 + (16 + rounded) * msgCount.toNat < 2 ^ 32 := unwrapped.whole
  have one : 0 < msgCount.toNat := Nat.pos_of_ne_zero fun zero => positive (BitVec.eq_of_toNat_eq zero)
  have least : 16 + rounded ≤ (16 + rounded) * msgCount.toNat := Nat.le_mul_of_pos_right _ one
  have product : ((rtosMessageSize + ((msgSize + 3) &&& ~~~3)) * msgCount).toNat =
      (16 + rounded) * msgCount.toNat := by
    have sum : (rtosMessageSize + ((msgSize + 3) &&& ~~~3)).toNat = 16 + rounded := by
      rw [BitVec.toNat_add]
      exact Nat.mod_eq_of_lt (show 16 + rounded < 2 ^ 32 by omega)
    rw [BitVec.toNat_mul, sum]
    exact Nat.mod_eq_of_lt (by omega)
  generalize (16 + rounded) * msgCount.toNat = blocks at *
  simp only [room] at isRoom
  split at isRoom
  · simp only [Option.ite_none_left_eq_some, Option.some_inj, Prod.mk.injEq] at isRoom
    obtain ⟨found, rfl, rfl, rfl⟩ := isRoom
    have long := provided.alloc _ found
    generalize alloc _ = control at *
    have sum : (size + (rtosMessageSize + ((msgSize + 3) &&& ~~~3)) * msgCount).toNat = 312 + blocks := by
      rw [BitVec.toNat_add, product]
      exact Nat.mod_eq_of_lt whole
    have head : (control + 292).toNat = control.toNat + 292 := by
      rw [BitVec.toNat_add]
      exact Nat.mod_eq_of_lt (show control.toNat + 292 < 2 ^ 32 by omega)
    have data : (control + size).toNat = control.toNat + 312 := by
      rw [BitVec.toNat_add]
      exact Nat.mod_eq_of_lt (show control.toNat + 312 < 2 ^ 32 by omega)
    rw [sum] at long
    omega
  · rw [Option.ite_none_right_eq_some] at isRoom
    obtain ⟨⟨isControl, isData⟩, isRoom⟩ := isRoom
    simp only [Option.ite_none_left_eq_some, Option.some_inj, Prod.mk.injEq, not_or] at isRoom
    obtain ⟨⟨enoughControl, enoughData⟩, rfl, rfl, rfl⟩ := isRoom
    have control := provided.control isControl
    have data := provided.data isData
    have apart := provided.apart isControl isData
    rw [BitVec.lt_def] at enoughControl enoughData
    rw [product] at enoughData
    have sizeof : size.toNat = 312 := rfl
    have head : (attr.cbMem + 292).toNat = attr.cbMem.toNat + 292 := by
      rw [BitVec.toNat_add]
      exact Nat.mod_eq_of_lt (show attr.cbMem.toNat + 292 < 2 ^ 32 by omega)
    omega

theorem placed_of_new {memory : Bytes} {msgCount msgSize : Word} {attr : MessageQueueAttr}
    {alloc : Word → Word} {context : Context} {state : ByteStore}
    (made : osMessageQueueNew memory msgCount msgSize attr alloc context = some (queue, state))
    (positive : msgCount ≠ 0) (unwrapped : Unwrapped msgCount msgSize)
    (provided : Provided attr alloc) :
    queue.msgSize = (msgSize + 3) &&& ~~~3 ∧ queue.msgCount = msgCount ∧
      ∃ placed : queue.Placed, Holding placed state [] := by
  simp only [osMessageQueueNew, Option.ite_none_left_eq_some] at made
  obtain ⟨_, made⟩ := made
  obtain ⟨⟨control, poolData, poolSize⟩, isRoom, made⟩ := Option.bind_eq_some_iff.mp made
  obtain ⟨⟨memory', freeList⟩, isPool, made⟩ := Option.map_eq_some_iff.mp made
  cases made
  simp only [osMemoryPoolNew, Option.ite_none_left_eq_some] at isPool
  obtain ⟨_, aligned, present, enough, threaded⟩ := isPool
  refine ⟨rfl, rfl, ?_⟩
  obtain ⟨sizes, head, apart, fits⟩ := room_fits isRoom positive unwrapped provided
  have placed : (⟨control, poolData, (msgSize + 3) &&& ~~~3, msgCount⟩ : ByteQueue).Placed :=
    ⟨not_ne_iff.mp aligned, sizes, present, fits, head, apart⟩
  refine ⟨placed, ?_⟩
  have new := holding_new placed memory
  rw [blockSize] at new
  simp only [blockSize, Option.some_inj] at threaded
  rw [threaded] at new
  exact new

theorem toNat_rounded {msgSize : Word} (unwrapped : msgSize.toNat + 3 < 2 ^ 32) :
    ((msgSize + 3) &&& ~~~3).toNat = (msgSize.toNat + 3) / 4 * 4 := by
  have sum : (msgSize + 3).toNat = msgSize.toNat + 3 := by
    rw [BitVec.toNat_add]
    exact Nat.mod_eq_of_lt unwrapped
  rw [toNat_and_not_three, sum]

/-- The message bytes survive: a put reads as many bytes as were asked for at the creation, all of
them and no other; a get writes no byte beyond them; and what the calls return is what a list of
messages of that size would return. -/
structure KeepsBytes (queue : ByteQueue) (initially : ByteStore) (size : Nat) : Prop where
  reads : ∀ calls results state, outputs queue.call initially calls = some (results, state) →
    ∀ source other priority timeout context, bytesAt source 0 size = bytesAt other 0 size →
      queue.osMessageQueuePut state source priority timeout context =
        queue.osMessageQueuePut state other priority timeout context
  readsAll : ∀ calls results state, outputs queue.call initially calls = some (results, state) →
    ∀ source other priority timeout context next,
      queue.osMessageQueuePut state source priority timeout context = some (.osOK, next) →
      queue.osMessageQueuePut state other priority timeout context = some (.osOK, next) →
        bytesAt source 0 size = bytesAt other 0 size
  writes : ∀ calls results state, outputs queue.call initially calls = some (results, state) →
    ∀ destination timeout context returned next,
      queue.osMessageQueueGet state destination timeout context = some (returned, next) →
        ∀ index, size ≤ index → returned.buffer index = destination index
  delivers : ∀ calls, (outputs queue.call initially calls).map Prod.fst =
    (outputs (Mailbox.call queue.msgCount.toNat size) [] calls).map Prod.fst

section KeepsBytes

variable {placed : queue.Placed} {initially state : ByteStore} {calls : List (Context × BufferCall)}
  {results : List Returned}

theorem outputs_holding (begins : Holding placed initially []) :
    Option.Rel (fun left right => left.1 = right.1 ∧ Holding placed left.2 right.2)
      (outputs queue.call initially calls)
      (outputs (Mailbox.call queue.msgCount.toNat queue.msgSize.toNat) [] calls) :=
  outputs_rel (fun _ _ input holding => @call_holding _ _ _ _ input holding) begins

theorem exists_holding (begins : Holding placed initially [])
    (performed : outputs queue.call initially calls = some (results, state)) :
    ∃ mails, Holding placed state mails := by
  have related := @outputs_holding _ _ _ calls begins
  rw [performed] at related
  generalize outputs (Mailbox.call queue.msgCount.toNat queue.msgSize.toNat) [] calls = ends at related
  cases related with
  | some holds => exact ⟨_, holds.2⟩

theorem osMessageQueuePut_congr {source other : Bytes} {priority : BitVec 8} {timeout : Word}
    {context : Context} (same : bytesAt source 0 queue.msgSize.toNat = bytesAt other 0 queue.msgSize.toNat) :
    queue.osMessageQueuePut state source priority timeout context =
      queue.osMessageQueuePut state other priority timeout context := by
  have loads : ∀ memory message, queue.loadMessage memory message source priority =
      queue.loadMessage memory message other priority := by
    intro memory message
    simp only [loadMessage]
    exact memcpy_congr same
  simp only [osMessageQueuePut, loads]

theorem bytesAt_of_osMessageQueuePut {source : Bytes} {priority : BitVec 8} {timeout : Word}
    {context : Context} {mails : List Mail} {next : ByteStore} (holding : Holding placed state mails)
    (succeeds : queue.osMessageQueuePut state source priority timeout context = some (.osOK, next)) :
    bytesAt next.memory (state.freeList.toNat + dataOffset) queue.msgSize.toNat =
      bytesAt source 0 queue.msgSize.toNat := by
  obtain ⟨messages, free, links, mail, keeps⟩ := holding
  by_cases valid : osKernelContextIsValid true timeout context = .osOK
  · cases free with
    | nil =>
        rw [osMessageQueuePut_full valid ((eq_zero_iff_length keeps.poolValue).mpr rfl), inVain_eq]
          at succeeds
        split at succeeds
        · cases succeeds
        · exact (noToken_ne_osOK timeout (congrArg Prod.fst (Option.some_inj.mp succeeds))).elim
    | cons block rest =>
        obtain ⟨other, moved, copied, _⟩ := @osMessageQueuePut_free _ _ _ _ timeout context source
          priority _ _ _ _ _ keeps valid
        rw [succeeds] at moved
        cases moved
        rw [show state.freeList = queue.block block from keeps.threads.1, placed.toNat_blockOf]
        exact copied
  · rw [osMessageQueuePut, if_pos valid] at succeeds
    exact (valid (congrArg Prod.fst (Option.some_inj.mp succeeds))).elim

theorem keepsBytes_of_holding (begins : Holding placed initially []) :
    KeepsBytes queue initially queue.msgSize.toNat where
  reads _ _ _ _ _ _ _ _ _ same := osMessageQueuePut_congr same
  readsAll _ _ _ performed source other priority timeout context next first second := by
    obtain ⟨mails, holding⟩ := exists_holding begins performed
    rw [← bytesAt_of_osMessageQueuePut holding first, ← bytesAt_of_osMessageQueuePut holding second]
  writes _ _ state performed destination timeout context returned next got index above := by
    obtain ⟨mails, messages, free, links, mail, keeps⟩ := exists_holding begins performed
    by_cases valid : osKernelContextIsValid true timeout context = .osOK
    · cases messages with
      | nil =>
          rw [osMessageQueueGet_empty valid ((eq_zero_iff_length keeps.dataValue).mpr rfl), inVain_eq]
            at got
          split at got
          · cases got
          · cases got
            rfl
      | cons block rest =>
          obtain ⟨other, moved, _⟩ := @osMessageQueueGet_first _ _ _ _ timeout context destination
            _ _ _ _ _ keeps valid
          rw [got] at moved
          cases moved
          have length := congrArg List.length (keeps.content block List.mem_cons_self)
          rw [length_bytesAt] at length
          simp only [Mailbox.overwrite, List.getD_eq_getElem?_getD]
          rw [List.getElem?_eq_none (by omega)]
          rfl
    · rw [osMessageQueueGet, if_pos valid] at got
      cases got
      rfl
  delivers calls := by
    have related := @outputs_holding _ _ _ calls begins
    generalize outputs queue.call initially calls = left at related
    generalize outputs (Mailbox.call queue.msgCount.toNat queue.msgSize.toNat) [] calls = right at related
    cases related with
    | some holds => exact congrArg some holds.1
    | none => rfl

theorem not_keepsBytes (begins : Holding placed initially []) {size : Nat} (positive : queue.msgCount ≠ 0)
    (less : size < queue.msgSize.toNat) : ¬KeepsBytes queue initially size := by
  intro keepsBytes
  obtain ⟨messages, free, links, mail, keeps⟩ := begins
  have free_ : free ≠ [] := by
    rintro rfl
    have none : messages = [] := List.map_eq_nil_iff.mp keeps.mails.symm
    have length := keeps.length
    rw [none] at length
    exact positive (BitVec.eq_of_toNat_eq length.symm)
  obtain ⟨block, rest, rfl⟩ := List.exists_cons_of_ne_nil free_
  let source : Bytes := fun _ => 0
  let other : Bytes := fun index => if index = size then 1 else 0
  obtain ⟨next, moved, copied, _⟩ := @osMessageQueuePut_free _ _ _ _ 0 .thread source 0 _ _ _ _ _
    keeps rfl
  obtain ⟨nextOther, movedOther, copiedOther, _⟩ := @osMessageQueuePut_free _ _ _ _ 0 .thread other 0
    _ _ _ _ _ keeps rfl
  have same := keepsBytes.reads [] [] initially rfl source other 0 0 .thread
    (bytesAt_eq_iff.mpr fun index below => by simp [source, other, Nat.ne_of_lt below])
  rw [moved, movedOther] at same
  obtain rfl : next = nextOther := congrArg Prod.snd (Option.some_inj.mp same)
  have differ := bytesAt_eq_iff.mp (copied.symm.trans copiedOther) size less
  simp [source, other] at differ

end KeepsBytes

/-- A queue keeps the bytes of its messages if and only if their size was a multiple of a word. -/
theorem keepsBytes_iff {memory : Bytes} {msgCount msgSize : Word} {attr : MessageQueueAttr}
    {alloc : Word → Word} {context : Context} {initially : ByteStore}
    (made : osMessageQueueNew memory msgCount msgSize attr alloc context = some (queue, initially))
    (positive : msgCount ≠ 0) (unwrapped : Unwrapped msgCount msgSize)
    (provided : Provided attr alloc) :
    KeepsBytes queue initially msgSize.toNat ↔ msgSize.toNat % 4 = 0 := by
  obtain ⟨isSize, isCount, placed, begins⟩ := placed_of_new made positive unwrapped provided
  have rounded := toNat_rounded unwrapped.rounded
  rw [← isSize] at rounded
  constructor
  · intro keepsBytes
    by_contra odd
    exact not_keepsBytes begins (isCount ▸ positive) (by omega) keepsBytes
  · intro even
    have same : msgSize.toNat = queue.msgSize.toNat := by omega
    rw [same]
    exact keepsBytes_of_holding begins

def smallHeap (size : Word) : Word := if size ≤ 0x1000 then 0x20000000 else 0

theorem provided_smallHeap : Provided ⟨0, 0, 0, 0⟩ smallHeap where
  control none := (none rfl).elim
  data none := (none rfl).elim
  apart none := (none rfl).elim
  alloc size found := by
    have small : size ≤ 0x1000 := by
      by_contra large
      exact found (if_neg large)
    rw [smallHeap, if_pos small]
    have bound := BitVec.le_def.mp small
    change 0x20000000 + size.toNat < 2 ^ 32
    exact Nat.lt_of_le_of_lt (Nat.add_le_add_left bound _) (by decide)

theorem keepsBytes_iff_eight :
    ∃ queue initially, osMessageQueueNew (fun _ => 0) 2 8 ⟨0, 0, 0, 0⟩ smallHeap .thread =
      some (queue, initially) ∧ KeepsBytes queue initially 8 := by
  obtain ⟨⟨queue, initially⟩, made⟩ := Option.isSome_iff_exists.mp
    (show (osMessageQueueNew (fun _ => 0) 2 8 ⟨0, 0, 0, 0⟩ smallHeap .thread).isSome by decide)
  exact ⟨queue, initially, made, (keepsBytes_iff made (by decide) ⟨by decide, by decide⟩
    provided_smallHeap).mpr (by decide)⟩

theorem not_keepsBytes_one :
    ¬∀ queue initially, osMessageQueueNew (fun _ => 0) 1 1 ⟨0, 0, 0, 0⟩ smallHeap .thread =
      some (queue, initially) → KeepsBytes queue initially 1 := by
  intro always
  obtain ⟨⟨queue, initially⟩, made⟩ := Option.isSome_iff_exists.mp
    (show (osMessageQueueNew (fun _ => 0) 1 1 ⟨0, 0, 0, 0⟩ smallHeap .thread).isSome by decide)
  obtain ⟨isSize, isCount, _, begins⟩ :=
    placed_of_new made (by decide) ⟨by decide, by decide⟩ provided_smallHeap
  refine not_keepsBytes begins ?_ ?_ (always queue initially made)
  · rw [isCount]
    decide
  · rw [isSize]
    decide

end ByteQueue

end PicoToolkit
