import PicoToolkit.Support.LinkedList
import PicoToolkit.Threads.Mutex

/-!
`_thrd_create` from the allocation of the block on: the list of the threads in memory, what the calls
that can fail answer, and what the other threads do to the list in the meantime.
-/

namespace PicoToolkit

open Memory Ring

abbrev ThrdsLayout (Block : Type) : Type := Layout Unit Block

/-- What others do to `thrds` under its lock: a creation adds a block, a join or the reaper removes one. -/
inductive ThrdsChange (Block : Type) where
  | add (block : Block)
  | remove (block : Block)
  deriving DecidableEq

/-- What the calls of `_thrd_create` answer.  The lock is taken and released once more where the block is
to be removed again. -/
structure CreateAnswers where
  cndInit : ThrdStatus := .thrdSuccess
  mtxLock : ThrdStatus := .thrdSuccess
  mtxUnlock : ThrdStatus := .thrdSuccess
  schedulerCreate : Bool := true
  mtxLockAgain : ThrdStatus := .thrdSuccess
  mtxUnlockAgain : ThrdStatus := .thrdSuccess

inductive CreateOutcome where
  | success (memory : Bytes)
  | error (memory : Bytes) (released : Nat)
  | abort

section Functions

variable {Block : Type} (layout : ThrdsLayout Block)

def ThrdsChange.act (memory : Bytes) : ThrdsChange Block → Bytes
  | .add block =>
      listAdd (listInit memory (layout.address (.node block))) (layout.address (.head ()))
        (layout.address (.node block))
  | .remove block => listRemove memory (layout.address (.node block))

/-- `_thrd_create` after `_thrd_alloc`; `error_remove_thrds` removes the head of the list. -/
def thrdCreate (memory : Bytes) (thread : Block) (answers : CreateAnswers)
    (others : List (ThrdsChange Block)) : CreateOutcome :=
  let memory := listInit memory (layout.address (.node thread))
  if answers.cndInit ≠ .thrdSuccess then
    .error (others.foldl (ThrdsChange.act layout) memory) 0
  else if answers.mtxLock ≠ .thrdSuccess then
    .error (others.foldl (ThrdsChange.act layout) memory) 1
  else
    let memory := listAdd memory (layout.address (.head ())) (layout.address (.node thread))
    let memory := others.foldl (ThrdsChange.act layout) memory
    if answers.mtxUnlock ≠ .thrdSuccess ∨ ¬answers.schedulerCreate then
      if answers.mtxLockAgain ≠ .thrdSuccess then .abort
      else
        let memory := listRemove memory (layout.address (.head ()))
        if answers.mtxUnlockAgain ≠ .thrdSuccess then .abort else .error memory 1
    else .success memory

end Functions

section Lists

variable {Block : Type} [DecidableEq Block]

def ThrdsChange.apply (threads : List Block) : ThrdsChange Block → List Block
  | .add block => threads ++ [block]
  | .remove block => threads.filter (· ≠ block)

/-- Others add blocks that are not listed and remove listed ones; they do not know the block of a thread
that is not created yet. -/
def ThrdsChange.Proper (thread : Block) : List Block → List (ThrdsChange Block) → Prop
  | _, [] => True
  | threads, .add block :: rest =>
      block ≠ thread ∧ block ∉ threads ∧ Proper thread (threads ++ [block]) rest
  | threads, .remove block :: rest =>
      block ≠ thread ∧ block ∈ threads ∧ Proper thread (threads.filter (· ≠ block)) rest

end Lists

section Unchanged

variable {Block : Type}

/-- The list is a ring of these threads, the block has been released once, and nothing in the ring points
to it. -/
structure Uncreated (layout : ThrdsLayout Block) (threads : List Block) (thread : Block)
    (memory : Bytes) (released : Nat) : Prop where
  ring : IsRing layout memory threads
  released : released = 1
  unreferenced : ∀ node, InRing threads node →
    listNext memory (layout.address node) ≠ layout.pointer (.node thread) ∧
      listPrev memory (layout.address node) ≠ layout.pointer (.node thread)

variable [DecidableEq Block] {layout : ThrdsLayout Block} {memory after : Bytes}
  {threads : List Block} {thread : Block} {answers : CreateAnswers}
  {others : List (ThrdsChange Block)} {released : Nat}

theorem isRing_others {listed : List Block} (ring : IsRing layout memory listed)
    (same : listed.filter (· ≠ thread) = threads)
    (proper : ThrdsChange.Proper thread threads others) :
    ∃ left, IsRing layout (others.foldl (ThrdsChange.act layout) memory) left ∧
      left.filter (· ≠ thread) = others.foldl ThrdsChange.apply threads ∧
      (thread ∈ left ↔ thread ∈ listed) := by
  induction others generalizing memory listed threads with
  | nil => exact ⟨listed, ring, same, Iff.rfl⟩
  | cons change rest ih =>
      cases change with
      | add block =>
          obtain ⟨other, fresh, proper⟩ := proper
          have unlisted : block ∉ listed := by
            intro member
            rw [← same, List.mem_filter] at fresh
            exact fresh ⟨member, by simpa using other⟩
          have sameNow : (listed ++ [block]).filter (· ≠ thread) = threads ++ [block] := by
            rw [List.filter_append, same, List.filter_singleton]
            simp [other]
          obtain ⟨left, isRing, isSame, kept⟩ := ih (ring.listAdd unlisted) sameNow proper
          refine ⟨left, isRing, isSame, kept.trans ?_⟩
          simp [Ne.symm other]
      | remove block =>
          obtain ⟨other, listedThere, proper⟩ := proper
          have member : block ∈ listed := by
            rw [← same] at listedThere
            exact List.mem_of_mem_filter listedThere
          have sameNow : (listed.filter (· ≠ block)).filter (· ≠ thread) =
              threads.filter (· ≠ block) := by
            rw [List.filter_comm, same]
          obtain ⟨left, isRing, isSame, kept⟩ := ih (ring.listRemove member) sameNow proper
          refine ⟨left, isRing, isSame, kept.trans ?_⟩
          simp [Ne.symm other]

theorem filter_ne_of_notMem {listed : List Block} (absent : thread ∉ listed) :
    listed.filter (· ≠ thread) = listed := by
  rw [List.filter_eq_self]
  intro block member
  have other : block ≠ thread := fun isThread => absent (isThread ▸ member)
  simpa using other

theorem isRing_unadded (ring : IsRing layout memory threads) (fresh : thread ∉ threads)
    (proper : ThrdsChange.Proper thread threads others) :
    IsRing layout (others.foldl (ThrdsChange.act layout)
        (listInit memory (layout.address (.node thread)))) (others.foldl ThrdsChange.apply threads) ∧
      thread ∉ others.foldl ThrdsChange.apply threads := by
  obtain ⟨left, isRing, isSame, kept⟩ :=
    isRing_others (ring.listInit fresh) (filter_ne_of_notMem fresh) proper
  have absent : thread ∉ left := fun member => fresh (kept.mp member)
  rw [← isSame, filter_ne_of_notMem absent]
  exact ⟨isRing, absent⟩

/-- Where the head has been removed instead of the block, the list is empty, which is right only if
there is no other thread. -/
theorem uncreated_removed_iff {left : List Block} (ring : IsRing layout memory left)
    (listed : thread ∈ left) (same : left.filter (· ≠ thread) = threads) :
    Uncreated layout threads thread (listRemove memory (layout.address (.head ()))) 1 ↔
      threads = [] := by
  obtain ⟨next, prev⟩ := ring.listRemove_head (List.ne_nil_of_mem listed)
  constructor
  · intro uncreated
    have first := uncreated.ring.next_head
    rw [next, Layout.pointer_inj] at first
    cases threads with
    | nil => rfl
    | cons block rest => cases first
  · rintro none_
    rw [none_]
    have isRing := isRing_empty next prev
    exact ⟨isRing, rfl, fun node inRing => isRing.unreferenced List.not_mem_nil inRing⟩

/-- A creation that fails leaves everything as it was exactly if it fails to take the lock, or has to
remove its block from a list with no other thread in it. -/
theorem uncreated_iff (ring : IsRing layout memory threads) (fresh : thread ∉ threads)
    (proper : ThrdsChange.Proper thread threads others)
    (fails : thrdCreate layout memory thread answers others = .error after released) :
    Uncreated layout (others.foldl ThrdsChange.apply threads) thread after released ↔
      answers.cndInit = .thrdSuccess ∧
        (answers.mtxLock ≠ .thrdSuccess ∨ others.foldl ThrdsChange.apply threads = []) := by
  obtain ⟨isRing, absent⟩ := isRing_unadded ring fresh proper
  simp only [thrdCreate] at fails
  split at fails
  · next initFails =>
      cases fails
      refine iff_of_false (fun uncreated => ?_) fun condition => initFails condition.1
      cases uncreated.released
  · next initialized =>
      have isInit := Decidable.not_not.mp initialized
      split at fails
      · next lockFails =>
          cases fails
          refine iff_of_true ?_ ⟨isInit, .inl lockFails⟩
          exact ⟨isRing, rfl, fun node inRing => isRing.unreferenced absent inRing⟩
      · next locked =>
          split at fails
          · split at fails
            · cases fails
            · split at fails
              · cases fails
              · cases fails
                have sameThere : (threads ++ [thread]).filter (· ≠ thread) = threads := by
                  rw [List.filter_append, filter_ne_of_notMem fresh]
                  simp
                obtain ⟨left, isLeft, isSame, kept⟩ :=
                  isRing_others (ring.listAdd fresh) sameThere proper
                have listed : thread ∈ left := kept.mpr (by simp)
                rw [uncreated_removed_iff isLeft listed isSame]
                exact ⟨fun none_ => ⟨isInit, .inr none_⟩,
                  fun condition => condition.2.resolve_left locked⟩
          · cases fails

/-- The list at the address 16, and the nodes of the blocks at the multiples of 16 after it. -/
def nearLayout : ThrdsLayout (Fin 8) where
  address
    | .head _ => 16
    | .node block => 32 + 16 * block
  apart node other different := by
    cases node with
    | head list =>
        cases other with
        | head => exact absurd rfl different
        | node block => exact .inl (by dsimp only; omega)
    | node block =>
        cases other with
        | head => exact .inr (by dsimp only; omega)
        | node second =>
            have apart : (block : Nat) ≠ second := fun same => different (congrArg _ (Fin.ext same))
            dsimp only
            omega
  bounded node := by
    cases node with
    | head => exact (by decide : 16 + 8 ≤ 2 ^ 32)
    | node block =>
        dsimp only
        omega

def mainListed : Bytes :=
  listAdd (listInit (listInit (fun _ => 0) (nearLayout.address (.head ())))
    (nearLayout.address (.node 0))) (nearLayout.address (.head ())) (nearLayout.address (.node 0))

theorem isRing_mainListed : IsRing nearLayout mainListed [0] := by
  have none_ : IsRing nearLayout (listInit (fun _ => 0) (nearLayout.address (.head ()))) [] :=
    isRing_empty (by decide) (by decide)
  have absent : (0 : Fin 8) ∉ [] := List.not_mem_nil
  exact none_.listAdd absent

theorem uncreated_iff_lock : ∃ after,
    thrdCreate nearLayout mainListed 1 { mtxLock := .thrdError } [.add 2, .remove 0] =
      .error after 1 ∧ Uncreated nearLayout [2] 1 after 1 := by
  have fresh : (1 : Fin 8) ∉ [0] := by decide
  have proper : ThrdsChange.Proper 1 [(0 : Fin 8)] [.add 2, .remove 0] :=
    ⟨by decide, by decide, by decide, by decide, trivial⟩
  obtain ⟨after, fails⟩ : ∃ after, thrdCreate nearLayout mainListed 1 { mtxLock := .thrdError }
      [.add 2, .remove 0] = .error after 1 := ⟨_, rfl⟩
  have lockFails : (ThrdStatus.thrdError : ThrdStatus) ≠ .thrdSuccess := nofun
  exact ⟨after, fails,
    (uncreated_iff isRing_mainListed fresh proper fails).mpr ⟨rfl, .inl lockFails⟩⟩

theorem not_uncreated_task : ∃ after,
    thrdCreate nearLayout mainListed 1 { schedulerCreate := false } [] = .error after 1 ∧
      IsRing nearLayout mainListed [0] ∧ ¬Uncreated nearLayout [0] 1 after 1 := by
  refine ⟨_, rfl, isRing_mainListed, fun uncreated => ?_⟩
  have first := uncreated.ring.next_head
  revert first
  decide

end Unchanged

end PicoToolkit
