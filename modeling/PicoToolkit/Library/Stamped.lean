import PicoToolkit.Library.Ring

/-!
A store of lists that remembers when each element has been inserted.  A list into which every element is
inserted before the first one with a greater key is in order of the keys, and among elements with equal keys
in the order of their insertions.
-/

namespace Ring

structure Stamped (H E : Type) where
  lists : Family H E
  stamp : E → Nat
  clock : Nat

instance : Store Stamped where
  entries stamped := stamped.lists
  remove stamped element := { stamped with lists := Store.remove stamped.lists element }
  insert stamped list entry element :=
    { lists := Store.insert stamped.lists list entry element
      stamp := Function.update stamped.stamp element stamped.clock
      clock := stamped.clock + 1 }
  initHead stamped list := { stamped with lists := Store.initHead stamped.lists list }
  initNode stamped element := { stamped with lists := Store.initNode stamped.lists element }

namespace Stamped

def empty {H E : Type} : Stamped H E := { lists := fun _ => [], stamp := fun _ => 0, clock := 0 }

variable {H E : Type} {stamped : Stamped H E} {key : E → Nat} {list : H} {element : E}

def Before (stamped : Stamped H E) (key : E → Nat) (first second : E) : Prop :=
  key first < key second ∨ key first = key second ∧ stamped.stamp first < stamped.stamp second

structure InOrder (stamped : Stamped H E) (key : E → Nat) (list : H) : Prop where
  sorted : (stamped.lists list).Pairwise (stamped.Before key)
  fresh : ∀ x ∈ stamped.lists list, stamped.stamp x < stamped.clock

theorem InOrder.congr {next : Stamped H E} {nextKey : E → Nat} (inOrder : stamped.InOrder key list)
    (lists : next.lists list = stamped.lists list) (clock : stamped.clock ≤ next.clock)
    (same : ∀ x ∈ stamped.lists list, nextKey x = key x ∧ next.stamp x = stamped.stamp x) :
    next.InOrder nextKey list := by
  refine ⟨?_, fun x member => ?_⟩
  · rw [lists]
    refine inOrder.sorted.imp_of_mem fun {first second} isFirst isSecond before => ?_
    rw [Before, (same first isFirst).1, (same first isFirst).2, (same second isSecond).1,
      (same second isSecond).2]
    exact before
  · rw [lists] at member
    rw [(same x member).2]
    exact Nat.lt_of_lt_of_le (inOrder.fresh x member) clock

theorem InOrder.before_of_find (inOrder : stamped.InOrder key list) {test : E → Bool} {first : E}
    (found : (stamped.lists list).find? test = some first) {other : E} (member : other ∈ stamped.lists list)
    (meets : test other = true) (different : other ≠ first) : stamped.Before key first other := by
  obtain ⟨_, before, after, split, none_⟩ := List.find?_eq_some_iff_append.mp found
  have sorted := inOrder.sorted
  rw [split] at member sorted
  rcases List.mem_append.mp member with early | late
  · have fails := none_ other early
    rw [meets] at fails
    cases fails
  · rcases List.mem_cons.mp late with same | later
    · exact (different same).elim
    · exact (List.pairwise_cons.mp (List.pairwise_append.mp sorted).2.1).1 other later

section Store

variable [DecidableEq H] [DecidableEq E]

theorem InOrder.remove (inOrder : stamped.InOrder key list) (element : E) :
    (Store.remove stamped element : Stamped H E).InOrder key list :=
  ⟨inOrder.sorted.filter _, fun x member => inOrder.fresh x (List.mem_filter.mp member).1⟩

theorem InOrder.insert (inOrder : stamped.InOrder key list) (unlisted : element ∉ stamped.lists list) :
    (Store.insert stamped list ((stamped.lists list).find? fun x => decide (key x > key element)) element :
      Stamped H E).InOrder key list := by
  have others : ∀ x ∈ stamped.lists list,
      Function.update stamped.stamp element stamped.clock x = stamped.stamp x := fun x member =>
    Function.update_of_ne (ne_of_mem_of_not_mem member unlisted) _ _
  have own : Function.update stamped.stamp element stamped.clock element = stamped.clock :=
    Function.update_self ..
  refine ⟨?_, fun x member => ?_⟩
  · change (Store.insert stamped.lists list _ element : Family H E) list |>.Pairwise _
    rw [Family.insert_self]
    refine pairwise_insertEntry (inOrder.sorted.imp_of_mem fun {first second} isFirst isSecond before => ?_)
      (fun x member notLater => ?_) (fun x member later => ?_) fun x isFirst y isSecond before later => ?_
    · change key first < key second ∨ key first = key second ∧
        Function.update stamped.stamp element stamped.clock first <
          Function.update stamped.stamp element stamped.clock second
      rw [others first isFirst, others second isSecond]
      exact before
    · have le : key x ≤ key element := by simpa using notLater
      change key x < key element ∨ key x = key element ∧
        Function.update stamped.stamp element stamped.clock x <
          Function.update stamped.stamp element stamped.clock element
      rw [others x member, own]
      rcases Nat.lt_or_eq_of_le le with less | same
      · exact Or.inl less
      · exact Or.inr ⟨same, inOrder.fresh x member⟩
    · exact Or.inl (by simpa using later)
    · have greater : key element < key x := by simpa using later
      rcases before with less | ⟨same, _⟩
      · exact decide_eq_true (Nat.lt_trans greater less)
      · exact decide_eq_true (show key element < key y from same ▸ greater)
  · rcases Family.mem_insert.mp member with ⟨_, same⟩ | old
    · rw [same]
      change Function.update stamped.stamp element stamped.clock element < stamped.clock + 1
      rw [own]
      exact Nat.lt_succ_self _
    · change Function.update stamped.stamp element stamped.clock x < stamped.clock + 1
      rw [others x old]
      exact Nat.lt_succ_of_lt (inOrder.fresh x old)

theorem InOrder.insert_other (inOrder : stamped.InOrder key list) {other : H} (different : list ≠ other)
    (entry : Option E) (unlisted : element ∉ stamped.lists list) :
    (Store.insert stamped other entry element : Stamped H E).InOrder key list := by
  refine inOrder.congr (Family.insert_of_ne different entry element) (Nat.le_succ _) fun x member => ⟨rfl, ?_⟩
  exact Function.update_of_ne (ne_of_mem_of_not_mem member unlisted) _ _

end Store

end Stamped

end Ring
