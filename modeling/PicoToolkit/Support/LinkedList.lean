import PicoToolkit.Library.Memory
import PicoToolkit.Library.Ring

/-!
The functions of `linked-list.h` on the bytes of memory.  They act on the links that a memory holds
as linking and unlinking do.
-/

namespace PicoToolkit

open Memory Ring

/-- `list->next` -/
def listNext (memory : Bytes) (node : Nat) : BitVec 32 := load memory node

/-- `list->prev` -/
def listPrev (memory : Bytes) (node : Nat) : BitVec 32 := load memory (node + 4)

def setListNext (memory : Bytes) (node : Nat) (target : BitVec 32) : Bytes :=
  store memory node target

def setListPrev (memory : Bytes) (node : Nat) (target : BitVec 32) : Bytes :=
  store memory (node + 4) target

def listInit (memory : Bytes) (list : Nat) : Bytes :=
  setListPrev (setListNext memory list (BitVec.ofNat 32 list)) list (BitVec.ofNat 32 list)

def listIsEmpty (memory : Bytes) (list : Nat) : Bool :=
  decide (listNext memory list = BitVec.ofNat 32 list ∧ listPrev memory list = BitVec.ofNat 32 list)

def listInsertBefore (memory : Bytes) (entry node : Nat) : Bytes :=
  let memory := setListNext memory node (BitVec.ofNat 32 entry)
  let memory := setListPrev memory node (listPrev memory entry)
  let memory := setListNext memory (listPrev memory entry).toNat (BitVec.ofNat 32 node)
  setListPrev memory entry (BitVec.ofNat 32 node)

/-- `list_add` has the body of `list_insert_before`, with the head of the list for the entry. -/
def listAdd (memory : Bytes) (list node : Nat) : Bytes := listInsertBefore memory list node

def listRemove (memory : Bytes) (node : Nat) : Bytes :=
  let memory := setListPrev memory (listNext memory node).toNat (listPrev memory node)
  let memory := setListNext memory (listPrev memory node).toNat (listNext memory node)
  listInit memory node

def listPop (memory : Bytes) (list : Nat) : Option Nat × Bytes :=
  if listIsEmpty memory list then (none, memory)
  else
    let front := (listNext memory list).toNat
    (some front, listRemove memory front)

structure Layout (H E : Type) where
  address : Node H E → Nat
  apart : ∀ node other, node ≠ other →
    address node + 8 ≤ address other ∨ address other + 8 ≤ address node
  bounded : ∀ node, address node + 8 ≤ 2 ^ 32

namespace Layout

variable {H E : Type} {layout : Layout H E} {memory : Bytes} {links : Links H E}
  {node other entry : Node H E} {word : BitVec 32} {within : Node H E → Prop}

def pointer (layout : Layout H E) (node : Node H E) : BitVec 32 :=
  BitVec.ofNat 32 (layout.address node)

def Holds (layout : Layout H E) (memory : Bytes) (links : Links H E) (within : Node H E → Prop) :
    Prop :=
  ∀ node, within node → listNext memory (layout.address node) = layout.pointer (links.next node) ∧
    listPrev memory (layout.address node) = layout.pointer (links.prev node)

def Outside (layout : Layout H E) (address : Nat) : Prop :=
  ∀ node, address < layout.address node ∨ layout.address node + 8 ≤ address

@[simp]
theorem toNat_pointer : (layout.pointer node).toNat = layout.address node := by
  have bounded := layout.bounded node
  rw [pointer, BitVec.toNat_ofNat]
  exact Nat.mod_eq_of_lt (by omega)

theorem address_inj (same : layout.address node = layout.address other) : node = other := by
  by_contra different
  have apart := layout.apart node other different
  omega

theorem pointer_inj : layout.pointer node = layout.pointer other ↔ node = other := by
  constructor
  · intro same
    have places := congrArg BitVec.toNat same
    rw [toNat_pointer, toNat_pointer] at places
    exact address_inj places
  · rintro rfl
    rfl

theorem Holds.congr {changed : Bytes} (holds : layout.Holds memory links within)
    (same : ∀ node, within node → ∀ address, layout.address node ≤ address →
      address < layout.address node + 8 → changed address = memory address) :
    layout.Holds changed links within := by
  intro node member
  have next : listNext changed (layout.address node) = listNext memory (layout.address node) :=
    load_congr fun address above below => same node member address above (by omega)
  have prev : listPrev changed (layout.address node) = listPrev memory (layout.address node) :=
    load_congr fun address above below => same node member address (by omega) (by omega)
  rw [next, prev]
  exact holds node member

section Fields

variable [DecidableEq H] [DecidableEq E]

theorem listNext_setListNext :
    listNext (setListNext memory (layout.address node) word) (layout.address other) =
      if other = node then word else listNext memory (layout.address other) := by
  by_cases same : other = node
  · rw [if_pos same, same]
    exact load_store_self
  · rw [if_neg same]
    have apart := layout.apart other node same
    exact load_store_of_apart (by omega)

theorem listPrev_setListPrev :
    listPrev (setListPrev memory (layout.address node) word) (layout.address other) =
      if other = node then word else listPrev memory (layout.address other) := by
  by_cases same : other = node
  · rw [if_pos same, same]
    exact load_store_self
  · rw [if_neg same]
    have apart := layout.apart other node same
    exact load_store_of_apart (by omega)

theorem listNext_setListPrev :
    listNext (setListPrev memory (layout.address node) word) (layout.address other) =
      listNext memory (layout.address other) := by
  by_cases same : other = node
  · subst same
    exact load_store_of_apart (by omega)
  · have apart := layout.apart other node same
    exact load_store_of_apart (by omega)

theorem listPrev_setListNext :
    listPrev (setListNext memory (layout.address node) word) (layout.address other) =
      listPrev memory (layout.address other) := by
  by_cases same : other = node
  · subst same
    exact load_store_of_apart (by omega)
  · have apart := layout.apart other node same
    exact load_store_of_apart (by omega)

end Fields

theorem setListNext_of_outside {address : Nat} (outside : layout.Outside address) :
    setListNext memory (layout.address node) word address = memory address := by
  have apart := outside node
  exact store_of_apart (by omega)

theorem setListPrev_of_outside {address : Nat} (outside : layout.Outside address) :
    setListPrev memory (layout.address node) word address = memory address := by
  have apart := outside node
  exact store_of_apart (by omega)

variable [DecidableEq H] [DecidableEq E]

theorem Holds.init (holds : layout.Holds memory links within)
    (next : links.next node = node) (prev : links.prev node = node) :
    layout.Holds (listInit memory (layout.address node)) links
      fun other => other = node ∨ within other := by
  intro other member
  simp only [listInit, listNext_setListNext, listNext_setListPrev,
    listPrev_setListNext, listPrev_setListPrev]
  by_cases same : other = node
  · subst same
    rw [if_pos rfl, if_pos rfl, next, prev]
    exact ⟨rfl, rfl⟩
  · rw [if_neg same, if_neg same]
    exact holds other (member.resolve_left same)

theorem Holds.insertBefore (holds : layout.Holds memory links within)
    (isEntry : within entry) (notEntry : node ≠ entry) (notPrev : node ≠ links.prev entry) :
    layout.Holds (listInsertBefore memory (layout.address entry) (layout.address node))
      (links.linkBefore entry node) within := by
  have prevEntry := (holds entry isEntry).2
  intro other member
  obtain ⟨nextOther, prevOther⟩ := holds other member
  simp only [listInsertBefore, listPrev_setListPrev, listPrev_setListNext,
    if_neg notEntry.symm, prevEntry, toNat_pointer, listNext_setListPrev, listNext_setListNext,
    Links.linkBefore]
  constructor
  · by_cases isTarget : other = node
    · rw [if_neg (fun same => notPrev (isTarget.symm.trans same)), if_pos isTarget, if_pos isTarget]
      rfl
    · rw [if_neg isTarget, if_neg isTarget]
      by_cases isLast : other = links.prev entry
      · rw [if_pos isLast, if_pos isLast]
        rfl
      · rw [if_neg isLast, if_neg isLast]
        exact nextOther
  · by_cases isTarget : other = node
    · rw [if_neg (fun same => notEntry (isTarget.symm.trans same)), if_pos isTarget, if_pos isTarget]
    · rw [if_neg isTarget, if_neg isTarget]
      by_cases atEntry : other = entry
      · rw [if_pos atEntry, if_pos atEntry]
        rfl
      · rw [if_neg atEntry, if_neg atEntry]
        exact prevOther

theorem Holds.remove (holds : layout.Holds memory links within) (isNode : within node)
    (notNext : links.next node ≠ node) :
    layout.Holds (listRemove memory (layout.address node)) (links.unlink node) within := by
  obtain ⟨nextNode, prevNode⟩ := holds node isNode
  intro other member
  obtain ⟨nextOther, prevOther⟩ := holds other member
  simp only [listRemove, listInit, nextNode, prevNode, toNat_pointer,
    listPrev_setListPrev, listPrev_setListNext, listNext_setListPrev, listNext_setListNext,
    if_neg notNext.symm, Links.unlink]
  constructor
  · by_cases isTarget : other = node
    · rw [if_pos isTarget, if_pos isTarget]
      rfl
    · rw [if_neg isTarget, if_neg isTarget]
      by_cases before : other = links.prev node
      · rw [if_pos before, if_pos before]
      · rw [if_neg before, if_neg before]
        exact nextOther
  · by_cases isTarget : other = node
    · rw [if_pos isTarget, if_pos isTarget]
      rfl
    · rw [if_neg isTarget, if_neg isTarget]
      by_cases after : other = links.next node
      · rw [if_pos after, if_pos after]
      · rw [if_neg after, if_neg after]
        exact prevOther

omit [DecidableEq H] [DecidableEq E] in
theorem listInit_of_outside {address : Nat} (outside : layout.Outside address) :
    listInit memory (layout.address node) address = memory address := by
  rw [listInit, setListPrev_of_outside outside, setListNext_of_outside outside]

theorem listInsertBefore_of_outside {address : Nat}
    (holds : layout.Holds memory links within) (isEntry : within entry) (notEntry : node ≠ entry)
    (outside : layout.Outside address) :
    listInsertBefore memory (layout.address entry) (layout.address node) address =
      memory address := by
  have prevEntry := (holds entry isEntry).2
  simp only [listInsertBefore, listPrev_setListPrev, listPrev_setListNext,
    if_neg notEntry.symm, prevEntry, toNat_pointer]
  rw [setListPrev_of_outside outside, setListNext_of_outside outside,
    setListPrev_of_outside outside, setListNext_of_outside outside]

theorem listRemove_of_outside {address : Nat}
    (holds : layout.Holds memory links within) (isNode : within node)
    (notNext : links.next node ≠ node) (outside : layout.Outside address) :
    listRemove memory (layout.address node) address = memory address := by
  obtain ⟨nextNode, prevNode⟩ := holds node isNode
  simp only [listRemove, nextNode, prevNode, toNat_pointer, listPrev_setListPrev,
    listNext_setListPrev, if_neg notNext.symm]
  rw [listInit_of_outside outside, setListNext_of_outside outside, setListPrev_of_outside outside]

end Layout

section Rings

variable {E : Type} {layout : Layout Unit E} {memory : Bytes} {elements : List E} {x : E}

def InRing (elements : List E) (node : Node Unit E) : Prop :=
  node = .head () ∨ ∃ x ∈ elements, node = .node x

/-- In memory a list is a well-formed ring of some elements; what else is in memory does not matter. -/
def IsRing (layout : Layout Unit E) (memory : Bytes) (elements : List E) : Prop :=
  ∃ links : Links Unit E, links.Represents (fun _ => elements) ∧
    layout.Holds memory links (InRing elements)

theorem IsRing.nodup (ring : IsRing layout memory elements) : elements.Nodup := by
  obtain ⟨links, represents, holds⟩ := ring
  exact represents.nodup ()

theorem IsRing.next_head (ring : IsRing layout memory elements) :
    listNext memory (layout.address (.head ())) =
      layout.pointer (Links.front elements (.head ())) := by
  obtain ⟨links, represents, holds⟩ := ring
  rw [(holds (.head ()) (.inl rfl)).1, (represents.ring ()).first]

theorem IsRing.unreferenced (ring : IsRing layout memory elements) (unlisted : x ∉ elements)
    {node : Node Unit E} (inRing : InRing elements node) :
    listNext memory (layout.address node) ≠ layout.pointer (.node x) ∧
      listPrev memory (layout.address node) ≠ layout.pointer (.node x) := by
  obtain ⟨links, represents, holds⟩ := ring
  have loose := represents.loose x fun _ => unlisted
  have other : node ≠ .node x := by
    rintro rfl
    rcases inRing with isHead | ⟨y, member, same⟩
    · cases isHead
    · cases same
      exact unlisted member
  rw [(holds node inRing).1, (holds node inRing).2, ne_eq, ne_eq, Layout.pointer_inj,
    Layout.pointer_inj]
  constructor
  · intro next
    rw [← represents.prev_next node, next] at other
    nth_rewrite 1 [← loose] at other
    exact other (represents.prev_next _)
  · intro prev
    rw [← represents.next_prev node, prev] at other
    exact other loose

theorem isRing_empty (next : listNext memory (layout.address (.head ())) = layout.pointer (.head ()))
    (prev : listPrev memory (layout.address (.head ())) = layout.pointer (.head ())) :
    IsRing layout memory [] := by
  refine ⟨Links.empty, Links.empty_represents, ?_⟩
  rintro node (rfl | ⟨x, member, -⟩)
  · exact ⟨next, prev⟩
  · cases member

variable [DecidableEq E]

theorem IsRing.listInit (ring : IsRing layout memory elements) (unlisted : x ∉ elements) :
    IsRing layout (listInit memory (layout.address (.node x))) elements := by
  obtain ⟨links, represents, holds⟩ := ring
  have next := represents.loose x fun _ => unlisted
  have prev := represents.prev_next (.node x)
  rw [next] at prev
  exact ⟨links, represents, fun node inRing => holds.init next prev node (.inr inRing)⟩

theorem IsRing.listAdd (ring : IsRing layout memory elements) (unlisted : x ∉ elements) :
    IsRing layout (listAdd (PicoToolkit.listInit memory (layout.address (.node x)))
      (layout.address (.head ())) (layout.address (.node x))) (elements ++ [x]) := by
  obtain ⟨links, represents, holds⟩ := ring
  have next := represents.loose x fun _ => unlisted
  have prev := represents.prev_next (.node x)
  rw [next] at prev
  have notPrev : Node.node x ≠ links.prev (.head ()) := by
    intro last
    have follows := represents.next_prev (.head ())
    rw [← last, next] at follows
    cases follows
  refine ⟨links.linkBefore (.head ()) (.node x), ?_, ?_⟩
  · have whole : elements = elements ++ [] := (List.append_nil _).symm
    have linked := @Links.Represents.linkBefore Unit E _ _ links (fun _ => elements) () elements [] x
      represents whole fun _ => unlisted
    refine cast (congrArg _ ?_) linked
    funext list
    rfl
  · have isEntry : Node.head () = Node.node x ∨ InRing elements (.head ()) := .inr (.inl rfl)
    have notEntry : (Node.node x : Node Unit E) ≠ .head () := nofun
    have inserted := (holds.init next prev).insertBefore isEntry notEntry notPrev
    intro node inRing
    refine inserted node ?_
    rcases inRing with isHead | ⟨y, member, isNode⟩
    · exact .inr (.inl isHead)
    · rcases List.mem_append.mp member with old | new
      · exact .inr (.inr ⟨y, old, isNode⟩)
      · exact .inl (isNode.trans (congrArg _ (List.mem_singleton.mp new)))

theorem IsRing.listRemove (ring : IsRing layout memory elements) (listed : x ∈ elements) :
    IsRing layout (listRemove memory (layout.address (.node x))) (elements.filter (· ≠ x)) := by
  obtain ⟨links, represents, holds⟩ := ring
  refine ⟨links.unlink (.node x), represents.unlink x, ?_⟩
  intro node inRing
  refine holds.remove (.inr ⟨x, listed, rfl⟩) (represents.next_ne_self () listed) node ?_
  rcases inRing with isHead | ⟨y, member, isNode⟩
  · exact .inl isHead
  · exact .inr ⟨y, List.mem_of_mem_filter member, isNode⟩

theorem IsRing.listRemove_head (ring : IsRing layout memory elements) (some_ : elements ≠ []) :
    listNext (PicoToolkit.listRemove memory (layout.address (.head ()))) (layout.address (.head ())) =
        layout.pointer (.head ()) ∧
      listPrev (PicoToolkit.listRemove memory (layout.address (.head ())))
        (layout.address (.head ())) = layout.pointer (.head ()) := by
  obtain ⟨links, represents, holds⟩ := ring
  have notNext : links.next (.head ()) ≠ .head () := by
    rw [(represents.ring ()).first]
    cases elements with
    | nil => exact absurd rfl some_
    | cons first rest => nofun
  have removed := holds.remove (.inl rfl) notNext (.head ()) (.inl rfl)
  simp only [Links.unlink, if_pos] at removed
  exact removed

end Rings

end PicoToolkit
