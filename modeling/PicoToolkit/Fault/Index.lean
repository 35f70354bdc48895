import PicoToolkit.Library.Bisection
import PicoToolkit.Scheduler.State

/-!
The unwind index: a table of the functions in ascending order, each with its address relative to the place
of the entry, and the search for the function of an instruction pointer.
-/

namespace PicoToolkit.Fault

structure UnwindIndex where
  addrOffset : Word
  insn : Word

def prel31ToAddr (address word : Word) : Word :=
  let offset := (word <<< 1).sshiftRight 1
  (address + offset) &&& 0x7fffffff

structure Exidx where
  start : Word
  entries : List UnwindIndex

namespace Exidx

variable (exidx : Exidx)

def place (index : Nat) : Word := exidx.start + BitVec.ofNat 32 (8 * index)

def addr (index : Nat) : Option Word :=
  exidx.entries[index]?.map fun entry => prel31ToAddr (exidx.place index) entry.addrOffset

end Exidx

/-- `unwind_search_index` on the entries from `start` up to `finish`, which fails if it reads outside of the
table. -/
def unwindSearchIndex (exidx : Exidx) (start finish : Nat) (ip : Word) : Option Nat :=
  if start + 1 < finish then
    let middle := start + ((finish - start + 1) >>> 1)
    match exidx.addr middle with
    | none => none
    | some addr =>
        if ip < addr then unwindSearchIndex exidx start middle ip
        else unwindSearchIndex exidx middle finish ip
  else some start
termination_by finish - start
decreasing_by
  · have inside := Bisection.midpoint_inside ‹_›
    omega
  · have inside := Bisection.midpoint_inside ‹_›
    omega

def Exidx.keys (exidx : Exidx) (index : Nat) : Nat := ((exidx.addr index).getD 0).toNat

theorem Exidx.addr_eq {exidx : Exidx} {index : Nat} (inside : index < exidx.entries.length) :
    ∃ addr, exidx.addr index = some addr ∧ addr.toNat = exidx.keys index := by
  rw [keys, addr, List.getElem?_eq_getElem inside]
  exact ⟨_, rfl, rfl⟩

theorem unwindSearchIndex_isFloor {exidx : Exidx} {ip : Word}
    (increasing : Bisection.Increasing exidx.keys exidx.entries.length) {start finish : Nat}
    (brackets : Bisection.Brackets exidx.keys exidx.entries.length ip.toNat start finish) :
    ∃ index, unwindSearchIndex exidx start finish ip = some index ∧
      Bisection.IsFloor exidx.keys exidx.entries.length ip.toNat index := by
  fun_induction unwindSearchIndex exidx start finish ip with
  | case1 start finish wide middle outside =>
      obtain ⟨above, below⟩ := Bisection.midpoint_inside wide
      have inside := brackets.inside
      obtain ⟨addr, found, _⟩ := @Exidx.addr_eq exidx middle (by omega)
      cases outside.symm.trans found
  | case2 start finish wide middle addr found less ih =>
      obtain ⟨above, below⟩ := Bisection.midpoint_inside wide
      have inside := brackets.inside
      obtain ⟨_, same, key⟩ := @Exidx.addr_eq exidx middle (by omega)
      cases found.symm.trans same
      rw [BitVec.lt_def, key] at less
      exact ih (brackets.narrowUpper above below less)
  | case3 start finish wide middle addr found notLess ih =>
      obtain ⟨above, below⟩ := Bisection.midpoint_inside wide
      have inside := brackets.inside
      obtain ⟨_, same, key⟩ := @Exidx.addr_eq exidx middle (by omega)
      cases found.symm.trans same
      rw [BitVec.lt_def, key] at notLess
      exact ih (brackets.narrowLower below notLess)
  | case4 start finish narrow =>
      exact ⟨start, rfl, brackets.isFloor increasing narrow⟩

/-- The search reads entries of the table only, and finds the last one whose decoded address is not above
the instruction pointer, or else the first one. -/
theorem unwindSearchIndex_floor (exidx : Exidx) (ip : Word) (nonempty : exidx.entries ≠ [])
    (increasing : Bisection.Increasing exidx.keys exidx.entries.length) :
    ∃ index, unwindSearchIndex exidx 0 exidx.entries.length ip = some index ∧
      Bisection.IsFloor exidx.keys exidx.entries.length ip.toNat index :=
  unwindSearchIndex_isFloor increasing (.initial (List.length_pos_iff.mpr nonempty))

def threeFunctions : Exidx :=
  { start := 0x10000030
    entries := [⟨0x7fffffd0, 1⟩, ⟨0x7fffffd8, 1⟩, ⟨0x7fffffe0, 1⟩] }

theorem threeFunctions_floor :
    ∃ index, unwindSearchIndex threeFunctions 0 3 0x1000001f = some index ∧
      Bisection.IsFloor threeFunctions.keys 3 (0x1000001f : Word).toNat index := by
  refine unwindSearchIndex_floor threeFunctions 0x1000001f (List.cons_ne_nil _ _) ?_
  have keys : (List.range 3).map threeFunctions.keys = [0x10000000, 0x10000010, 0x10000020] := by
    decide
  intro first second before below
  have cases : (first = 0 ∧ second = 1) ∨ (first = 0 ∧ second = 2) ∨ (first = 1 ∧ second = 2) := by
    change second < 3 at below
    omega
  rcases cases with ⟨rfl, rfl⟩ | ⟨rfl, rfl⟩ | ⟨rfl, rfl⟩ <;> decide

example : unwindSearchIndex threeFunctions 0 3 0x1000001f = some 1 := by decide +kernel

end PicoToolkit.Fault
