import PicoToolkit.Scheduler.List

/-!
The functions of `linked-list.h` on the link fields of one list.  On a well-formed ring they are those of
the scheduler's lists, and a loop that looks for an entry ends at it or at the head.
-/

namespace PicoToolkit

open Ring

namespace LinkFields

section

variable {H E : Type} [DecidableEq H] [DecidableEq E]

def listInit (links : Links H E) (list : Node H E) : Links H E :=
  let links := links.setNext list list
  links.setPrev list list

def listIsEmpty (links : Links H E) (list : Node H E) : Bool :=
  decide (links.next list = list ∧ links.prev list = list)

def listIsLinked (links : Links H E) (node : Node H E) : Bool :=
  decide (links.next node ≠ node ∧ links.prev node ≠ node)

def listInsertBefore (links : Links H E) (entry node : Node H E) : Links H E :=
  let links := links.setNext node entry
  let links := links.setPrev node (links.prev entry)
  let links := links.setNext (links.prev entry) node
  links.setPrev entry node

def listRemove (links : Links H E) (node : Node H E) : Links H E :=
  let links := links.setPrev (links.next node) (links.prev node)
  let links := links.setNext (links.prev node) (links.next node)
  listInit links node

def listPop (links : Links H E) (list : Node H E) : Option (Node H E) × Links H E :=
  if listIsEmpty links list then (none, links)
  else (some (links.next list), listRemove links (links.next list))

def listForEachEntry (links : Links H E) (stops : E → Bool) : Nat → Node H E → Option (Node H E)
  | 0, _ => none
  | _ + 1, .head list => some (.head list)
  | fuel + 1, .node element =>
      if stops element then some (.node element)
      else listForEachEntry links stops fuel (links.next (.node element))

end

section Unlisted

variable {H E : Type} [DecidableEq H] [DecidableEq E] {links : Links H E} {lists : H → List E}

theorem listRemove_eq (represents : links.Represents lists) (node : Node H E) :
    listRemove links node = links.unlink node := schedListRemove_eq represents node

theorem listInsertBefore_eq (represents : links.Represents lists) {entry node : Node H E}
    (loose : links.next node = node) (different : entry ≠ node) :
    listInsertBefore links entry node = links.linkBefore entry node :=
  schedListInsertBefore_eq represents loose different

theorem listRemove_represents (represents : links.Represents lists) (element : E) :
    (listRemove links (.node element)).Represents fun list => (lists list).filter (· ≠ element) := by
  rw [listRemove_eq represents]
  exact represents.unlink element

theorem listInsertBefore_breaks (represents : links.Represents lists) {entry node : Node H E}
    (linked : links.next node ≠ node) (different : entry ≠ node) :
    ¬∃ other, (listInsertBefore links entry node).Represents other := by
  rintro ⟨other, again⟩
  have apart : links.prev node ≠ node := by
    intro same
    apply linked
    have next := represents.next_prev node
    rwa [same] at next
  have prevEntry : (links.setNext node entry |>.setPrev node (links.prev entry)).prev entry =
      links.prev entry := Function.update_of_ne different ..
  have next : (listInsertBefore links entry node).next (links.prev node) = node := by
    change Function.update (Function.update links.next node entry)
      ((links.setNext node entry |>.setPrev node (links.prev entry)).prev entry) node
      (links.prev node) = node
    rw [prevEntry]
    by_cases same : links.prev node = links.prev entry
    · rw [same, Function.update_self]
    · rw [Function.update_of_ne same, Function.update_of_ne apart]
      exact represents.next_prev node
  have prev : (listInsertBefore links entry node).prev node = links.prev entry :=
    (Function.update_of_ne different.symm ..).trans (Function.update_self ..)
  have back := again.prev_next (links.prev node)
  rw [next, prev] at back
  have same := congrArg links.next back
  rw [represents.next_prev, represents.next_prev] at same
  exact different same

omit [DecidableEq H] [DecidableEq E] in
theorem stops_of_listForEachEntry {stops : E → Bool} {fuel : Nat} {source : Node H E} {element : E}
    (found : listForEachEntry links stops fuel source = some (.node element)) : stops element := by
  induction fuel generalizing source with
  | zero => cases found
  | succ fuel ih =>
      cases source with
      | head list => cases found
      | node first =>
          rw [listForEachEntry] at found
          split at found
          · rename_i stopped
            cases found
            exact stopped
          · exact ih found

omit [DecidableEq H] [DecidableEq E] in
theorem listForEachEntry_of_path {source : Node H E} {list : H} {elements : List E}
    {stops : E → Bool} (path : links.Path source elements (.head list)) {fuel : Nat}
    (enough : elements.length < fuel) :
    listForEachEntry links stops fuel (links.next source) =
      some ((elements.find? stops).elim (.head list) .node) := by
  induction elements generalizing source fuel with
  | nil =>
      obtain ⟨fuel, rfl⟩ := Nat.exists_eq_succ_of_ne_zero (Nat.ne_of_gt enough)
      rw [path.first]
      rfl
  | cons element rest ih =>
      obtain ⟨fuel, rfl⟩ := Nat.exists_eq_succ_of_ne_zero (Nat.ne_zero_of_lt enough)
      rw [path.first, Links.front, listForEachEntry, List.find?_cons]
      cases stops element with
      | true => rfl
      | false => exact ih path.2 (Nat.lt_of_succ_lt_succ enough)

end Unlisted

section OneList

variable {E : Type} [DecidableEq E] {links : Links Unit E} {entries : List E}
  (represents : links.Represents fun _ => entries)

include represents

theorem listIsEmpty_iff : listIsEmpty links (.head ()) ↔ entries = [] := by
  have first := (represents.ring ()).first
  rw [listIsEmpty, decide_eq_true_iff]
  constructor
  · rintro ⟨next, _⟩
    cases entries with
    | nil => rfl
    | cons element rest =>
        rw [first] at next
        cases next
  · rintro rfl
    refine ⟨first, ?_⟩
    have back := represents.prev_next (.head ())
    rwa [first] at back

theorem listIsLinked_iff {element : E} : listIsLinked links (.node element) ↔ element ∈ entries := by
  rw [listIsLinked, decide_eq_true_iff]
  constructor
  · rintro ⟨next, _⟩
    by_contra absent
    exact next (represents.loose element fun _ => absent)
  · intro member
    have linked := represents.next_ne_self () member
    refine ⟨linked, fun loose => linked ?_⟩
    have next := represents.next_prev (.node element)
    rwa [loose] at next

theorem listPop_eq {first : E} {rest : List E} (isFirst : entries = first :: rest) :
    (listPop links (.head ())).1 = some (.node first) ∧
      (listPop links (.head ())).2.Represents fun _ => rest := by
  have some_ : ¬listIsEmpty links (.head ()) := by
    rw [listIsEmpty_iff represents, isFirst]
    exact List.cons_ne_nil _ _
  have next : links.next (.head ()) = Links.front entries (.head ()) := (represents.ring ()).first
  rw [isFirst, Links.front] at next
  have removed : (listRemove links (.node first)).Represents fun _ => entries.filter (· ≠ first) :=
    listRemove_represents represents first
  have kept : (entries.filter (· ≠ first)) = rest := by
    have unique : entries.Nodup := represents.nodup ()
    rw [isFirst, List.nodup_cons] at unique
    rw [isFirst, List.filter_cons_of_neg (by simp)]
    exact List.filter_eq_self.mpr fun x member => by
      simpa using ne_of_mem_of_not_mem member unique.1
  rw [kept] at removed
  rw [listPop, if_neg some_, next]
  exact ⟨rfl, removed⟩

theorem listInsertBefore_represents {entry : Option E} {element : E}
    (held : ∀ found, entry = some found → found ∈ entries) (unlisted : element ∉ entries) :
    (listInsertBefore links (entry.elim (.head ()) .node) (.node element)).Represents fun _ =>
      insertEntry entry element entries := by
  have different : entry.elim (.head ()) .node ≠ (.node element : Node Unit E) := by
    cases entry with
    | none => exact nofun
    | some found =>
        intro same
        cases same
        exact unlisted (held element rfl)
  have linked : Links.Represents _ (Function.update (fun _ => entries) () _) :=
    represents.insertEntry held fun _ => unlisted
  rw [← listInsertBefore_eq represents (represents.loose element fun _ => unlisted) different]
    at linked
  have only : Function.update (fun _ : Unit => entries) () (insertEntry entry element entries) =
      fun _ => insertEntry entry element entries :=
    funext fun _ => Function.update_self ..
  rwa [only] at linked

end OneList

theorem listInsert_represents {links : Links Unit (BitVec 32)} {entries : List (BitVec 32)}
    (represents : links.Represents fun _ => entries) (stops : BitVec 32 → Bool)
    {element : BitVec 32} (unlisted : element ∉ entries) :
    ∃ entry, listForEachEntry links stops (addressSpace + 1) (links.next (.head ())) = some entry ∧
      (listInsertBefore links entry (.node element)).Represents fun _ =>
        insertEntry (entries.find? stops) element entries := by
  refine ⟨_, listForEachEntry_of_path (represents.ring ())
    (Nat.lt_succ_of_le (length_le_addressSpace (represents.nodup ()))), ?_⟩
  exact listInsertBefore_represents represents (fun _ => List.mem_of_find?_eq_some) unlisted

end LinkFields

end PicoToolkit
