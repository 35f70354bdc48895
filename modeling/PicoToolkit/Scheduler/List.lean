import Mathlib.Algebra.Group.Nat.Defs
import Mathlib.Data.Fintype.Card
import PicoToolkit.Library.Ring

/-!
The `sched_list_*` functions, on the memory of one kind of list node.  On well-formed rings they
unlink and link nodes as the ring library describes.
-/

namespace PicoToolkit

open Ring

def addressSpace : Nat := 2 ^ 32

theorem length_le_addressSpace {addresses : List (BitVec 32)} (nodup : addresses.Nodup) :
    addresses.length ≤ addressSpace := by
  have distinct : (addresses.map BitVec.toFin).Nodup :=
    nodup.map fun _ _ same => BitVec.toFin_inj.mp same
  simpa [addressSpace] using distinct.length_le_card

section

variable {H E : Type} [DecidableEq H] [DecidableEq E]

def schedListInit (links : Links H E) (list : Node H E) : Links H E :=
  let links := links.setNext list list
  links.setPrev list list

def schedListEmpty (links : Links H E) (list : Node H E) : Bool :=
  links.next list = list

def schedListInsert (links : Links H E) (node first second : Node H E) : Links H E :=
  let links := links.setPrev second node
  let links := links.setNext node second
  let links := links.setPrev node first
  links.setNext first node

def schedListInsertBefore (links : Links H E) (entry node : Node H E) : Links H E :=
  let links := links.setNext node entry
  let links := links.setPrev node (links.prev entry)
  let links := links.setNext (links.prev entry) node
  links.setPrev entry node

def schedListAdd (links : Links H E) (list node : Node H E) : Links H E :=
  let links := links.setNext node list
  let links := links.setPrev node (links.prev list)
  let links := links.setNext (links.prev list) node
  links.setPrev list node

def schedListRemove (links : Links H E) (node : Node H E) : Links H E :=
  let links := links.setPrev (links.next node) (links.prev node)
  let links := links.setNext (links.prev node) (links.next node)
  let links := links.setNext node node
  links.setPrev node node

def schedListPush (links : Links H E) (list node : Node H E) : Links H E :=
  schedListInsert links node (links.prev list) list

def schedListIsLinked (links : Links H E) (node : Node H E) : Bool :=
  links.next node ≠ node

/-- The entries that `sched_list_for_each_entry` visits. -/
def schedListEntries (links : Links H E) (list : H) : List E :=
  links.walk (addressSpace + 1) (links.next (.head list))

/-- As `schedListEntries`, for a loop that runs through to the end: it comes back to the head. -/
def schedListEntries? (links : Links H E) (list : H) : Option (List E) :=
  links.walk? list (addressSpace + 1) (links.next (.head list))

theorem schedListRemove_eq {links : Links H E} {lists : H → List E}
    (represents : links.Represents lists) (node : Node H E) :
    schedListRemove links node = links.unlink node := by
  have prevNext := represents.prev_next
  have nextPrev := represents.next_prev
  have parts : ∀ other, (schedListRemove links node).next other = (links.unlink node).next other ∧
      (schedListRemove links node).prev other = (links.unlink node).prev other := by
    intro other
    simp only [schedListRemove, Links.setPrev, Links.setNext, Links.unlink, Function.update_apply]
    grind
  exact congrArg₂ Links.mk (funext fun other => (parts other).1) (funext fun other => (parts other).2)

theorem schedListInsertBefore_eq {links : Links H E} {lists : H → List E}
    (represents : links.Represents lists) {entry node : Node H E} (loose : links.next node = node)
    (different : entry ≠ node) :
    schedListInsertBefore links entry node = links.linkBefore entry node := by
  have prevNext := represents.prev_next
  have nextPrev := represents.next_prev
  have parts : ∀ other,
      (schedListInsertBefore links entry node).next other = (links.linkBefore entry node).next other ∧
      (schedListInsertBefore links entry node).prev other =
        (links.linkBefore entry node).prev other := by
    intro other
    simp only [schedListInsertBefore, Links.setPrev, Links.setNext, Links.linkBefore,
      Function.update_apply]
    grind
  exact congrArg₂ Links.mk (funext fun other => (parts other).1) (funext fun other => (parts other).2)

theorem schedListAdd_eq_insertBefore (links : Links H E) (list node : Node H E) :
    schedListAdd links list node = schedListInsertBefore links list node := rfl

theorem schedListPush_eq {links : Links H E} {lists : H → List E}
    (represents : links.Represents lists) {list node : Node H E} (loose : links.next node = node)
    (different : list ≠ node) :
    schedListPush links list node = links.linkBefore list node := by
  have prevNext := represents.prev_next
  have nextPrev := represents.next_prev
  have parts : ∀ other,
      (schedListPush links list node).next other = (links.linkBefore list node).next other ∧
      (schedListPush links list node).prev other = (links.linkBefore list node).prev other := by
    intro other
    simp only [schedListPush, schedListInsert, Links.setPrev, Links.setNext, Links.linkBefore,
      Function.update_apply]
    grind
  exact congrArg₂ Links.mk (funext fun other => (parts other).1) (funext fun other => (parts other).2)

theorem schedListInit_loose {links : Links H E} {lists : H → List E}
    (represents : links.Represents lists) {node : Node H E} (loose : links.next node = node) :
    schedListInit links node = links := by
  have back : links.prev node = node := by
    have inverse := represents.prev_next node
    rwa [loose] at inverse
  have next : (schedListInit links node).next = links.next :=
    Function.update_eq_self_iff.mpr loose.symm
  have prev : (schedListInit links node).prev = links.prev :=
    Function.update_eq_self_iff.mpr back.symm
  exact congrArg₂ Links.mk next prev

theorem isLinked_iff {links : Links H E} {lists : H → List E} (represents : links.Represents lists)
    {element : E} : schedListIsLinked links (.node element) ↔ ∃ list, element ∈ lists list := by
  rw [schedListIsLinked, decide_eq_true_iff]
  constructor
  · intro linked
    refine Classical.byContradiction fun none => linked ?_
    exact represents.loose element fun list member => none ⟨list, member⟩
  · rintro ⟨list, member⟩
    exact represents.next_ne_self list member

theorem represents_add {links : Links H E} {lists : H → List E} (represents : links.Represents lists)
    (list : H) {element : E} (absent : ∀ list, element ∉ lists list) :
    (schedListAdd links (.head list) (.node element)).Represents
      (Function.update lists list (lists list ++ [element])) := by
  have added : schedListAdd links (.head list) (.node element) =
      links.linkBefore (.head list) (.node element) := by
    rw [schedListAdd_eq_insertBefore]
    exact schedListInsertBefore_eq represents (represents.loose element absent) fun same => by cases same
  rw [added]
  exact @Links.Represents.linkBefore _ _ _ _ _ _ list (lists list) [] element represents
    (List.append_nil _).symm absent

end

theorem schedListEntries_eq {H : Type} {links : Links H (BitVec 32)} {lists : H → List (BitVec 32)}
    (represents : links.Represents lists) (list : H) : schedListEntries links list = lists list :=
  Links.walk_of_path (represents.ring list)
    (Nat.lt_succ_of_le (length_le_addressSpace (represents.nodup list)))

instance : Store Links where
  entries := schedListEntries
  remove links element := schedListRemove links (.node element)
  insert links list
    | none, element => schedListPush links (.head list) (.node element)
    | some entry, element => schedListInsertBefore links (.node entry) (.node element)
  initHead links list := schedListInit links (.head list)
  initNode links element := schedListInit links (.node element)

end PicoToolkit
