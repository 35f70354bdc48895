import Mathlib.Logic.Function.Basic
import Mathlib.Data.List.Basic

/-!
A stack of cells threaded through the cells themselves: each holds the address of the next one, and
the last holds the null address.
-/

namespace Stack

variable {Address : Type} {link : Address → Address} {null head cell : Address}
  {cells : List Address}

def Threads (link : Address → Address) (null : Address) : Address → List Address → Prop
  | head, [] => head = null
  | head, first :: rest => head = first ∧ first ≠ null ∧ Threads link null (link first) rest

theorem Threads.ne_null (threads : Threads link null head cells) (member : cell ∈ cells) :
    cell ≠ null := by
  induction cells generalizing head with
  | nil => cases member
  | cons first rest ih =>
      obtain ⟨_, positive, others⟩ := threads
      rcases List.mem_cons.mp member with rfl | later
      · exact positive
      · exact ih others later

theorem Threads.congr {other : Address → Address} (threads : Threads link null head cells)
    (same : ∀ cell ∈ cells, other cell = link cell) : Threads other null head cells := by
  induction cells generalizing head with
  | nil => exact threads
  | cons first rest ih =>
      obtain ⟨isFirst, positive, others⟩ := threads
      refine ⟨isFirst, positive, ?_⟩
      rw [same first List.mem_cons_self]
      exact ih others fun cell member => same cell (List.mem_cons_of_mem first member)

theorem Threads.update [DecidableEq Address] (threads : Threads link null head cells)
    (apart : cell ∉ cells) (value : Address) :
    Threads (Function.update link cell value) null head cells := by
  refine threads.congr fun other member => Function.update_of_ne ?_ _ _
  rintro rfl
  exact apart member

theorem Threads.push [DecidableEq Address] (threads : Threads link null head cells)
    (fresh : cell ∉ cells) (positive : cell ≠ null) :
    Threads (Function.update link cell head) null cell (cell :: cells) := by
  refine ⟨rfl, positive, ?_⟩
  rw [Function.update_self]
  exact threads.update fresh head

theorem not_threads_of_cycle (cycle : link head = head) (positive : head ≠ null) :
    ¬Threads link null head cells := by
  induction cells with
  | nil => exact positive
  | cons first rest ih =>
      rintro ⟨rfl, _, threads⟩
      rw [cycle] at threads
      exact ih threads

end Stack
