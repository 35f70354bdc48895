import Mathlib.Data.List.Basic
import Mathlib.Data.List.Nodup
import Mathlib.Logic.Function.Basic
import Mathlib.Logic.Relation

/-!
Circular doubly linked lists whose links live inside the listed elements.  A heap of such rings
represents a family of lists, one for each list head; unlinking and linking a node act on that
family as erasing and inserting.
-/

namespace Ring

inductive Node (H E : Type) where
  | head (list : H)
  | node (element : E)
  deriving DecidableEq

structure Links (H E : Type) where
  next : Node H E → Node H E
  prev : Node H E → Node H E

namespace Links

variable {H E : Type}

def empty : Links H E := { next := id, prev := id }

/-- Follow the links up to the next list head, at most `fuel` elements far. -/
def walk (links : Links H E) : Nat → Node H E → List E
  | 0, _ => []
  | _ + 1, .head _ => []
  | fuel + 1, .node element => element :: walk links fuel (links.next (.node element))

def walk? [DecidableEq H] (links : Links H E) (list : H) : Nat → Node H E → Option (List E)
  | 0, _ => none
  | _ + 1, .head other => if other = list then some [] else none
  | fuel + 1, .node element =>
      (walk? links list fuel (links.next (.node element))).map (element :: ·)

/-- Following `next` from `source` visits the elements in order and then reaches `target`. -/
def Path (links : Links H E) : Node H E → List E → Node H E → Prop
  | source, [], target => links.next source = target
  | source, element :: rest, target =>
      links.next source = .node element ∧ Path links (.node element) rest target

/-- The first link field of a path that visits `elements` and ends in `target`. -/
def front : List E → Node H E → Node H E
  | [], target => target
  | element :: _, _ => .node element

structure Represents (links : Links H E) (lists : H → List E) : Prop where
  prev_next : ∀ node, links.prev (links.next node) = node
  next_prev : ∀ node, links.next (links.prev node) = node
  ring : ∀ list, links.Path (.head list) (lists list) (.head list)
  nodup : ∀ list, (lists list).Nodup
  disjoint : ∀ left right element,
    element ∈ lists left → element ∈ lists right → left = right
  loose : ∀ element, (∀ list, element ∉ lists list) → links.next (.node element) = .node element

theorem empty_represents : (empty : Links H E).Represents fun _ => [] where
  prev_next _ := rfl
  next_prev _ := rfl
  ring _ := rfl
  nodup _ := List.nodup_nil
  disjoint _ _ _ member := by simp at member
  loose _ _ := rfl

theorem front_ne {target : Node H E} {after : List E} {element : E} (absent : element ∉ after)
    (targetOther : target ≠ .node element) : front after target ≠ .node element := by
  cases after with
  | nil => exact targetOther
  | cons first rest =>
      intro same
      injection same with same
      exact absent (same ▸ List.mem_cons_self)

theorem path_append {links : Links H E} {source target : Node H E} {before after : List E}
    {element : E} :
    links.Path source (before ++ element :: after) target ↔
      links.Path source before (.node element) ∧ links.Path (.node element) after target := by
  induction before generalizing source with
  | nil => simp [Path]
  | cons first rest ih => simp [Path, ih, and_assoc]

theorem Path.first {links : Links H E} {source target : Node H E} {elements : List E}
    (path : links.Path source elements target) :
    links.next source = front elements target := by
  cases elements with
  | nil => exact path
  | cons element rest => exact path.1

theorem Path.next_mem {links : Links H E} {source target : Node H E} {elements : List E}
    (path : links.Path source elements target) :
    ∀ node ∈ source :: elements.map .node,
      links.next node = target ∨ ∃ element ∈ elements, links.next node = .node element := by
  induction elements generalizing source with
  | nil =>
      intro node member
      have same : node = source := by simpa using member
      subst node
      exact Or.inl path
  | cons element rest ih =>
      intro node member
      rcases List.mem_cons.mp member with same | later
      · subst node
        exact Or.inr ⟨element, by simp, path.1⟩
      · rcases ih path.2 node (by simpa using later) with reached | ⟨other, inside, step⟩
        · exact Or.inl reached
        · exact Or.inr ⟨other, by simp [inside], step⟩

/-- One link field is reached from another by following `next`. -/
def Reaches (links : Links H E) : Node H E → Node H E → Prop :=
  Relation.ReflTransGen fun node successor => links.next node = successor

theorem Represents.alone {links : Links H E} {lists : H → List E}
    (represents : links.Represents lists) {element : E} (absent : ∀ list, element ∉ lists list)
    {node : Node H E} (reaches : links.Reaches node (.node element)) : node = .node element := by
  have loose := represents.loose element absent
  induction reaches using Relation.ReflTransGen.head_induction_on with
  | refl => rfl
  | @head before after follows _ same =>
      rw [← represents.prev_next before, follows, same]
      nth_rewrite 1 [← loose]
      exact represents.prev_next _

theorem Represents.next_ne_self {links : Links H E} {lists : H → List E}
    (represents : links.Represents lists) (list : H) {element : E} (listed : element ∈ lists list) :
    links.next (.node element) ≠ .node element := by
  obtain ⟨before, after, split⟩ := List.append_of_mem listed
  have path := represents.ring list
  have unique := represents.nodup list
  rw [split] at path unique
  have follows := (path_append.mp path).2.first
  rw [follows]
  cases after with
  | nil => nofun
  | cons second rest =>
      intro same
      cases same
      exact (List.nodup_cons.mp (List.nodup_append.mp unique).2.1).1 List.mem_cons_self

theorem Path.congr {links changed : Links H E} {source target : Node H E} {elements : List E}
    (path : links.Path source elements target)
    (same : ∀ node ∈ source :: elements.map .node, changed.next node = links.next node) :
    changed.Path source elements target := by
  induction elements generalizing source with
  | nil => exact (same source (by simp)).trans path
  | cons element rest ih =>
      refine ⟨(same source (by simp)).trans path.1, ih path.2 ?_⟩
      intro node member
      exact same node (by simp only [List.map_cons, List.mem_cons] at member ⊢; exact Or.inr member)

theorem Path.retarget {links changed : Links H E} {source target moved : Node H E}
    {elements : List E} (path : links.Path source elements target)
    (fresh : ∀ element ∈ elements, .node element ≠ target)
    (last : ∀ node ∈ source :: elements.map .node,
      links.next node = target → changed.next node = moved)
    (same : ∀ node ∈ source :: elements.map .node,
      links.next node ≠ target → changed.next node = links.next node) :
    changed.Path source elements moved := by
  induction elements generalizing source with
  | nil => exact last source (by simp) path
  | cons element rest ih =>
      have notLast : links.next source ≠ target := by
        rw [path.1]
        exact fresh element (by simp)
      have inside : ∀ node ∈ .node element :: rest.map .node,
          node ∈ source :: (element :: rest).map .node := by
        intro node member
        simp only [List.map_cons, List.mem_cons] at member ⊢
        exact Or.inr member
      refine ⟨(same source (by simp) notLast).trans path.1, ih path.2 ?_ ?_ ?_⟩
      · exact fun other member => fresh other (by simp [member])
      · exact fun node member => last node (inside node member)
      · exact fun node member => same node (inside node member)

theorem walk_of_path {links : Links H E} {source : Node H E} {list : H} {elements : List E}
    (path : links.Path source elements (.head list)) {fuel : Nat}
    (enough : elements.length < fuel) : links.walk fuel (links.next source) = elements := by
  induction elements generalizing source fuel with
  | nil =>
      obtain ⟨rest, rfl⟩ := Nat.exists_eq_succ_of_ne_zero (Nat.ne_of_gt enough)
      rw [show links.next source = .head list from path, walk]
  | cons element rest ih =>
      obtain ⟨less, rfl⟩ := Nat.exists_eq_succ_of_ne_zero (Nat.ne_of_gt (Nat.zero_lt_of_lt enough))
      rw [path.1, walk, ih path.2]
      simpa using enough

theorem walk?_of_path [DecidableEq H] {links : Links H E} {source : Node H E} {list : H}
    {elements : List E} (path : links.Path source elements (.head list)) {fuel : Nat}
    (enough : elements.length < fuel) :
    links.walk? list fuel (links.next source) = some elements := by
  induction elements generalizing source fuel with
  | nil =>
      obtain ⟨rest, rfl⟩ := Nat.exists_eq_succ_of_ne_zero (Nat.ne_of_gt enough)
      rw [show links.next source = .head list from path, walk?, if_pos rfl]
  | cons element rest ih =>
      obtain ⟨less, rfl⟩ := Nat.exists_eq_succ_of_ne_zero (Nat.ne_of_gt (Nat.zero_lt_of_lt enough))
      rw [path.1, walk?, ih path.2 (by simpa using enough), Option.map_some]

theorem walk_of_walk? [DecidableEq H] {links : Links H E} {list : H} {fuel : Nat}
    {source : Node H E} {elements : List E} (done : links.walk? list fuel source = some elements) :
    links.walk fuel source = elements := by
  induction fuel generalizing source elements with
  | zero => cases done
  | succ fuel ih =>
      cases source with
      | head other =>
          simp only [walk?, Option.ite_none_right_eq_some, Option.some_inj] at done
          exact done.2
      | node element =>
          obtain ⟨rest, further, rfl⟩ := Option.map_eq_some_iff.mp done
          rw [walk, ih further]

variable [DecidableEq H] [DecidableEq E]

def setNext (links : Links H E) (source target : Node H E) : Links H E :=
  { links with next := Function.update links.next source target }

def setPrev (links : Links H E) (source target : Node H E) : Links H E :=
  { links with prev := Function.update links.prev source target }

def unlink (links : Links H E) (target : Node H E) : Links H E where
  next source :=
    if source = target then target
    else if source = links.prev target then links.next target
    else links.next source
  prev source :=
    if source = target then target
    else if source = links.next target then links.prev target
    else links.prev source

def linkBefore (links : Links H E) (anchor target : Node H E) : Links H E where
  next source :=
    if source = target then anchor
    else if source = links.prev anchor then target
    else links.next source
  prev source :=
    if source = target then links.prev anchor
    else if source = anchor then target
    else links.prev source

namespace Represents

variable {links : Links H E} {lists : H → List E}

theorem unlink_path (represents : links.Represents lists) {source target : Node H E}
    {before after : List E} {element : E}
    (path : links.Path source (before ++ element :: after) target)
    (sourceOther : source ≠ .node element) (targetOther : target ≠ .node element)
    (notBefore : element ∉ before) (notAfter : element ∉ after) :
    (links.unlink (.node element)).Path source (before ++ after) target := by
  obtain ⟨toElement, fromElement⟩ := path_append.mp path
  have other : ∀ node ∈ source :: before.map .node, node ≠ .node element := by
    intro node member same
    subst node
    rcases List.mem_cons.mp member with first | later
    · exact sourceOther first.symm
    · exact notBefore (by simpa using later)
  have start : (links.unlink (.node element)).Path source before (front after target) := by
    rw [← fromElement.first]
    refine toElement.retarget (fun x member same => notBefore ?_) ?_ ?_
    · injection same with same
      exact same ▸ member
    · intro node member step
      have isPrev : node = links.prev (.node element) := by rw [← step, represents.prev_next]
      simp only [unlink, other node member, if_false, ← isPrev, if_true]
    · intro node member step
      have notPrev : node ≠ links.prev (.node element) := by
        intro same
        exact step (by rw [same, represents.next_prev])
      simp only [unlink, other node member, notPrev, if_false]
  cases after with
  | nil => simpa [front] using start
  | cons first rest =>
      refine path_append.mpr ⟨start, fromElement.2.congr ?_⟩
      intro node member
      have inAfter : node ∈ .node element :: (first :: rest).map .node :=
        List.mem_cons_of_mem _ (by simpa using member)
      have nodeOther : node ≠ .node element := by
        intro same
        subst node
        exact notAfter (by simpa using member)
      have notPrev : node ≠ links.prev (.node element) := by
        intro same
        have step : links.next node = .node element := by rw [same, represents.next_prev]
        rcases fromElement.next_mem node inAfter with reached | ⟨x, inside, reached⟩
        · exact targetOther (reached.symm.trans step)
        · rw [step] at reached
          injection reached with reached
          exact notAfter (reached ▸ inside)
      simp only [unlink, nodeOther, notPrev, if_false]

theorem unlink (represents : links.Represents lists) (element : E) :
    (links.unlink (.node element)).Represents fun list => (lists list).filter (· ≠ element) := by
  have prevNext := represents.prev_next
  have nextPrev := represents.next_prev
  refine ⟨?_, ?_, ?_, ?_, ?_, ?_⟩
  · intro node
    simp only [Links.unlink]
    grind
  · intro node
    simp only [Links.unlink]
    grind
  · intro list
    by_cases member : element ∈ lists list
    · obtain ⟨before, after, split⟩ := List.append_of_mem member
      have unique := represents.nodup list
      have path := represents.ring list
      rw [split] at unique path
      have notBefore : element ∉ before := by
        have parts := List.nodup_append.mp unique
        intro inside
        exact parts.2.2 element inside element (by simp) rfl
      have notAfter : element ∉ after := by
        have parts := List.nodup_append.mp unique
        exact (List.nodup_cons.mp parts.2.1).1
      have kept : (lists list).filter (· ≠ element) = before ++ after := by
        rw [split, List.filter_append, List.filter_cons_of_neg (by simp),
          List.filter_eq_self.mpr, List.filter_eq_self.mpr]
        · exact fun x inside => by simpa using fun same : x = element => notAfter (same ▸ inside)
        · exact fun x inside => by simpa using fun same : x = element => notBefore (same ▸ inside)
      rw [kept]
      exact represents.unlink_path path (by simp) (by simp) notBefore notAfter
    · have kept : (lists list).filter (· ≠ element) = lists list :=
        List.filter_eq_self.mpr fun x inside => by
          simpa using fun same : x = element => member (same ▸ inside)
      rw [kept]
      refine (represents.ring list).congr ?_
      intro node inside
      have nodeOther : node ≠ .node element := by
        intro same
        subst node
        exact member (by simpa using inside)
      have notPrev : node ≠ links.prev (.node element) := by
        intro same
        have step : links.next node = .node element := by rw [same, represents.next_prev]
        rcases (represents.ring list).next_mem node inside with reached | ⟨x, held, reached⟩
        · rw [step] at reached
          simp at reached
        · rw [step] at reached
          injection reached with reached
          exact member (reached ▸ held)
      simp only [Links.unlink, nodeOther, notPrev, if_false]
  · exact fun list => (represents.nodup list).filter _
  · intro left right x inLeft inRight
    exact represents.disjoint left right x (List.mem_of_mem_filter inLeft)
      (List.mem_of_mem_filter inRight)
  · intro x unlisted
    by_cases same : x = element
    · simp [Links.unlink, same]
    · have wasLoose : links.next (.node x) = .node x := by
        apply represents.loose
        intro list member
        exact unlisted list (List.mem_filter.mpr ⟨member, by simpa using same⟩)
      simp only [Links.unlink, Node.node.injEq, same, if_false]
      rw [if_neg, wasLoose]
      intro isPrev
      have step : links.next (.node x) = .node element := by rw [isPrev, represents.next_prev]
      rw [wasLoose] at step
      injection step with step
      exact same step

theorem linkBefore_path (represents : links.Represents lists) {source target : Node H E}
    {before after : List E} {element : E}
    (path : links.Path source (before ++ after) target)
    (loose : links.next (.node element) = .node element)
    (sourceOther : source ≠ .node element) (targetOther : target ≠ .node element)
    (absent : element ∉ before ++ after) (unique : (before ++ after).Nodup)
    (outside : ∀ x ∈ before ++ after, .node x ≠ target) :
    (links.linkBefore (front after target) (.node element)).Path source
      (before ++ element :: after) target := by
  have anchorOther : front after target ≠ .node element :=
    front_ne (fun inside => absent (List.mem_append_right _ inside)) targetOther
  have toAnchor : links.Path source before (front after target) := by
    cases after with
    | nil => simpa [front] using path
    | cons first rest => exact (path_append.mp path).1
  refine path_append.mpr ⟨toAnchor.retarget ?_ ?_ ?_, ?_⟩
  · intro x member same
    cases after with
    | nil => exact outside x (by simp [member]) same
    | cons first rest =>
        injection same with same
        subst x
        exact (List.nodup_append.mp unique).2.2 first member first (by simp) rfl
  · intro node member step
    have nodeOther : node ≠ .node element := by
      intro same
      subst node
      exact anchorOther (step.symm.trans loose)
    have isPrev : node = links.prev (front after target) := by rw [← step, represents.prev_next]
    simp only [Links.linkBefore, nodeOther, if_false, ← isPrev, if_true]
  · intro node member step
    have nodeOther : node ≠ .node element := by
      intro same
      subst node
      rcases List.mem_cons.mp member with first | later
      · exact sourceOther first.symm
      · exact absent (by simp at later; simp [later])
    have notPrev : node ≠ links.prev (front after target) := by
      intro same
      exact step (by rw [same, represents.next_prev])
    simp only [Links.linkBefore, nodeOther, notPrev, if_false]
  · cases after with
    | nil => simp [Path, front, Links.linkBefore]
    | cons first rest =>
        refine ⟨by simp [front, Links.linkBefore], (path_append.mp path).2.congr ?_⟩
        intro node member
        have nodeOther : node ≠ .node element := by
          intro same
          subst node
          exact absent (List.mem_append_right _ (by simpa using member))
        have notPrev : node ≠ links.prev (front (first :: rest) target) := by
          intro same
          have step : links.next node = .node first := by rw [same, represents.next_prev]; rfl
          rcases (path_append.mp path).2.next_mem node member with reached | ⟨x, held, reached⟩
          · exact outside first (by simp) (step.symm.trans reached)
          · rw [step] at reached
            injection reached with reached
            subst x
            have parts := (List.nodup_append.mp unique).2.1
            exact (List.nodup_cons.mp parts).1 held
        simp only [Links.linkBefore, nodeOther, notPrev, if_false]

section LinkBefore

variable {list other : H} {before after : List E} {element : E}

omit [DecidableEq E] in
theorem mem_update_insert (split : lists list = before ++ after) {x : E} :
    x ∈ Function.update lists list (before ++ element :: after) other ↔
      x ∈ lists other ∨ (other = list ∧ x = element) := by
  by_cases same : other = list
  · subst other
    rw [Function.update_self, split]
    simp only [List.mem_append, List.mem_cons]
    tauto
  · rw [Function.update_of_ne same]
    simp [same]

omit [DecidableEq H] [DecidableEq E] in
/-- The node before the front of the rest of a list is none of another list. -/
theorem ne_prev_front (represents : links.Represents lists) (split : lists list = before ++ after)
    (different : other ≠ list) {node : Node H E}
    (inside : node ∈ .head other :: (lists other).map .node) :
    node ≠ links.prev (front after (.head list)) := by
  intro eq
  have step : links.next node = front after (.head list) := by rw [eq, represents.next_prev]
  cases after with
  | nil =>
      rcases (represents.ring other).next_mem node inside with reached | ⟨x, _, reached⟩
      · rw [step] at reached
        injection reached with reached
        exact different reached.symm
      · rw [step] at reached
        cases reached
  | cons first rest =>
      rcases (represents.ring other).next_mem node inside with reached | ⟨x, held, reached⟩
      · rw [step] at reached
        cases reached
      · rw [step] at reached
        injection reached with reached
        subst x
        exact different (represents.disjoint other list first held (by simp [split]))

theorem linkBefore_other (represents : links.Represents lists) (split : lists list = before ++ after)
    (unlisted : element ∉ lists other) (different : other ≠ list) :
    (links.linkBefore (front after (.head list)) (.node element)).Path (.head other) (lists other)
      (.head other) := by
  refine (represents.ring other).congr ?_
  intro node inside
  have nodeOther : node ≠ .node element := by
    intro eq
    subst node
    exact unlisted (by simpa using inside)
  have notPrev := represents.ne_prev_front split different inside
  simp only [Links.linkBefore, nodeOther, notPrev, if_false]

theorem linkBefore_loose (represents : links.Represents lists) (split : lists list = before ++ after)
    {x : E} (unlisted : ∀ other, x ∉ lists other) (different : x ≠ element) :
    (links.linkBefore (front after (.head list)) (.node element)).next (.node x) = .node x := by
  have wasLoose := represents.loose x unlisted
  simp only [Links.linkBefore, Node.node.injEq, different, if_false]
  rw [if_neg, wasLoose]
  intro isPrev
  have step : links.next (.node x) = front after (.head list) := by
    rw [isPrev, represents.next_prev]
  rw [wasLoose] at step
  cases after with
  | nil => cases step
  | cons first rest =>
      injection step with step
      exact unlisted list (by simp [split, step])

theorem linkBefore (represents : links.Represents lists) (split : lists list = before ++ after)
    (unlisted : ∀ other, element ∉ lists other) :
    (links.linkBefore (front after (.head list)) (.node element)).Represents
      (Function.update lists list (before ++ element :: after)) := by
  have loose := represents.loose element unlisted
  have absent : element ∉ before ++ after := split ▸ unlisted list
  have unique : (before ++ after).Nodup := split ▸ represents.nodup list
  have anchorOther : front after (.head list) ≠ Node.node element :=
    front_ne (fun inside => absent (List.mem_append_right _ inside)) (by simp)
  have prevNext := represents.prev_next
  have nextPrev := represents.next_prev
  refine ⟨?_, ?_, ?_, ?_, ?_, ?_⟩
  · intro node
    simp only [Links.linkBefore]
    grind
  · intro node
    simp only [Links.linkBefore]
    grind
  · intro other
    by_cases same : other = list
    · subst other
      rw [Function.update_self]
      have path := represents.ring list
      rw [split] at path
      exact represents.linkBefore_path path loose (by simp) (by simp) absent unique (by simp)
    · rw [Function.update_of_ne same]
      exact represents.linkBefore_other split (unlisted other) same
  · intro other
    by_cases same : other = list
    · subst other
      rw [Function.update_self]
      exact List.nodup_middle.mpr (List.nodup_cons.mpr ⟨absent, unique⟩)
    · rw [Function.update_of_ne same]
      exact represents.nodup other
  · intro left right x inLeft inRight
    rcases (mem_update_insert split).mp inLeft with oldLeft | ⟨rfl, rfl⟩
    · rcases (mem_update_insert split).mp inRight with oldRight | ⟨rfl, rfl⟩
      · exact represents.disjoint left right x oldLeft oldRight
      · exact (unlisted left oldLeft).elim
    · rcases (mem_update_insert split).mp inRight with oldRight | ⟨rfl, _⟩
      · exact (unlisted right oldRight).elim
      · rfl
  · intro x stillUnlisted
    have xOther : x ≠ element := by
      rintro rfl
      exact stillUnlisted list ((mem_update_insert split).mpr (Or.inr ⟨rfl, rfl⟩))
    exact represents.linkBefore_loose split
      (fun other member => stillUnlisted other ((mem_update_insert split).mpr (Or.inl member))) xOther

end LinkBefore

end Represents

end Links

def insertEntry {E : Type} [DecidableEq E] (entry : Option E) (element : E) : List E → List E
  | [] => [element]
  | first :: rest =>
      if entry = some first then element :: first :: rest
      else first :: insertEntry entry element rest

section InsertEntry

variable {E : Type} [DecidableEq E]

theorem insertEntry_none (element : E) (elements : List E) :
    insertEntry none element elements = elements ++ [element] := by
  induction elements with
  | nil => rfl
  | cons first rest ih => simp [insertEntry, ih]

theorem insertEntry_some {entry element : E} {before after : List E} (fresh : entry ∉ before) :
    insertEntry (some entry) element (before ++ entry :: after) =
      before ++ element :: entry :: after := by
  induction before with
  | nil => simp [insertEntry]
  | cons first rest ih =>
      simp only [List.mem_cons, not_or] at fresh
      simp [insertEntry, fresh.1, ih fresh.2]

theorem mem_insertEntry {entry : Option E} {element x : E} {elements : List E} :
    x ∈ insertEntry entry element elements ↔ x = element ∨ x ∈ elements := by
  induction elements with
  | nil => simp [insertEntry]
  | cons first rest ih =>
      simp only [insertEntry]
      split
      · simp
      · simp only [List.mem_cons, ih]
        tauto

theorem insertEntry_find_cons (later : E → Bool) (element first : E) (rest : List E) :
    insertEntry ((first :: rest).find? later) element (first :: rest) =
      if later first then element :: first :: rest
      else first :: insertEntry (rest.find? later) element rest := by
  rw [List.find?_cons]
  cases isLater : later first with
  | true => simp [insertEntry]
  | false =>
      have other : rest.find? later ≠ some first := by
        intro found
        rw [List.find?_some found] at isLater
        cases isLater
      simp [insertEntry, other]

theorem pairwise_insertEntry {Before : E → E → Prop} {later : E → Bool} {element : E}
    {elements : List E} (sorted : elements.Pairwise Before)
    (earlier : ∀ x ∈ elements, ¬later x → Before x element)
    (follows : ∀ x ∈ elements, later x → Before element x)
    (upward : ∀ x ∈ elements, ∀ y ∈ elements, Before x y → later x → later y) :
    (insertEntry (elements.find? later) element elements).Pairwise Before := by
  induction elements with
  | nil => exact List.pairwise_singleton _ _
  | cons first rest ih =>
      obtain ⟨least, restSorted⟩ := List.pairwise_cons.mp sorted
      have headIn : first ∈ first :: rest := List.mem_cons_self ..
      have restIn : ∀ x ∈ rest, x ∈ first :: rest := fun x member => List.mem_cons_of_mem _ member
      rw [insertEntry_find_cons]
      split
      · rename_i isLater
        refine List.pairwise_cons.mpr ⟨fun x member => follows x member ?_, sorted⟩
        rcases List.mem_cons.mp member with rfl | inRest
        · exact isLater
        · exact upward first headIn x member (least x inRest) isLater
      · rename_i notLater
        have inserted := ih restSorted (fun x member => earlier x (restIn x member))
          (fun x member => follows x (restIn x member))
          (fun x inLeft y inRight => upward x (restIn x inLeft) y (restIn y inRight))
        refine List.pairwise_cons.mpr ⟨fun x member => ?_, inserted⟩
        rcases mem_insertEntry.mp member with rfl | inRest
        · exact earlier first headIn notLater
        · exact least x inRest

theorem Links.Represents.insertEntry {H : Type} [DecidableEq H] {links : Links H E}
    {lists : H → List E} (represents : links.Represents lists) {list : H} {entry : Option E}
    {element : E} (held : ∀ x ∈ entry, x ∈ lists list)
    (unlisted : ∀ other, element ∉ lists other) :
    (links.linkBefore (entry.elim (.head list) .node) (.node element)).Represents
      (Function.update lists list (insertEntry entry element (lists list))) := by
  cases entry with
  | none =>
      rw [insertEntry_none]
      have whole : lists list = lists list ++ [] := by simp
      exact represents.linkBefore whole unlisted
  | some x =>
      obtain ⟨before, after, split⟩ := List.append_of_mem (held x rfl)
      have unique := represents.nodup list
      rw [split] at unique
      have fresh : x ∉ before := by
        intro inside
        exact (List.nodup_append.mp unique).2.2 x inside x (by simp) rfl
      rw [split, insertEntry_some fresh]
      exact represents.linkBefore split unlisted

end InsertEntry

class Store (R : Type → Type → Type) where
  entries {H E : Type} [DecidableEq H] [DecidableEq E] : R H E → H → List E
  remove {H E : Type} [DecidableEq H] [DecidableEq E] : R H E → E → R H E
  insert {H E : Type} [DecidableEq H] [DecidableEq E] : R H E → H → Option E → E → R H E
  initHead {H E : Type} [DecidableEq H] [DecidableEq E] : R H E → H → R H E
  initNode {H E : Type} [DecidableEq H] [DecidableEq E] : R H E → E → R H E

def Family (H E : Type) : Type := H → List E

instance : Store Family where
  entries lists := lists
  remove lists element := fun list => (lists list).filter (· ≠ element)
  insert lists list entry element :=
    Function.update lists list (insertEntry entry element (lists list))
  initHead lists list := Function.update lists list []
  initNode lists _ := lists

namespace Family

variable {H E : Type} [DecidableEq H] [DecidableEq E] {lists : Family H E}

@[simp]
theorem entries_eq : Store.entries lists = lists := rfl

@[simp]
theorem mem_remove {list : H} {element x : E} :
    x ∈ (Store.remove lists element : Family H E) list ↔ x ∈ lists list ∧ x ≠ element := by
  simp [Store.remove]

theorem insert_self (list : H) (entry : Option E) (element : E) :
    (Store.insert lists list entry element : Family H E) list =
      insertEntry entry element (lists list) :=
  Function.update_self ..

theorem insert_of_ne {list other : H} (different : other ≠ list) (entry : Option E)
    (element : E) : (Store.insert lists list entry element : Family H E) other = lists other :=
  Function.update_of_ne different ..

@[simp]
theorem mem_insert {list other : H} {entry : Option E} {element x : E} :
    x ∈ (Store.insert lists list entry element : Family H E) other ↔
      (other = list ∧ x = element) ∨ x ∈ lists other := by
  by_cases same : other = list
  · subst other
    simp [insert_self, mem_insertEntry]
  · simp [insert_of_ne same, same]

end Family

end Ring
