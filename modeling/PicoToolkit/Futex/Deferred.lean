import Mathlib.Data.Nat.Count
import PicoToolkit.Futex.Requests
import PicoToolkit.Futex.Waiting
import PicoToolkit.Scheduler.WellPlaced

/-!
The wakes that interrupt handlers request, and the tasks that the drain loop makes ready for them.
-/

namespace PicoToolkit

open Ring Transition

namespace Requests

variable {requests : Requests} {wakeup other : Word × Bool} {index : Nat}

def pending (requests : Requests) (wakeup : Word × Bool) : Nat :=
  Nat.count (fun index => requests.slots index = some wakeup) schedulerMaxDeferedWake

def occupied (requests : Requests) : Nat :=
  Nat.count (fun index => requests.slots index ≠ none) schedulerMaxDeferedWake

theorem count_update {α : Type} (holds : α → Prop) [DecidablePred holds] (slots : Nat → α)
    (value : α) {bound : Nat} (inside : index < bound) :
    Nat.count (fun other => holds (Function.update slots index value other)) bound +
        (if holds (slots index) then 1 else 0) =
      Nat.count (fun other => holds (slots other)) bound + if holds value then 1 else 0 := by
  induction bound with
  | zero => omega
  | succ bound ih =>
      rw [Nat.count_succ, Nat.count_succ]
      by_cases last : index = bound
      · subst last
        have before : Nat.count (fun other => holds (Function.update slots index value other)) index =
            Nat.count (fun other => holds (slots other)) index := by
          have same : ∀ bound ≤ index,
              Nat.count (fun other => holds (Function.update slots index value other)) bound =
                Nat.count (fun other => holds (slots other)) bound := by
            intro bound
            induction bound with
            | zero => simp
            | succ bound ih =>
                intro below
                rw [Nat.count_succ, Nat.count_succ, ih (by omega),
                  Function.update_of_ne (by omega)]
          exact same index (Nat.le_refl _)
        rw [before, Function.update_self]
        omega
      · have rest := ih (by omega)
        rw [Function.update_of_ne fun same => last same.symm]
        omega

theorem deferredSlot_free {slots : Nat → Option (Word × Bool)} {fuel first : Nat}
    (found : deferredSlot slots wakeup fuel first = some index) :
    index < first + fuel ∧ slots index = none := by
  induction fuel generalizing first with
  | zero => cases found
  | succ fuel ih =>
      rw [deferredSlot] at found
      split at found
      · rename_i free
        obtain rfl := Option.some_inj.mp found
        exact ⟨by omega, free⟩
      · split at found
        · cases found
        · obtain ⟨below, free⟩ := ih found
          exact ⟨by omega, free⟩

theorem deferredSlot_merges {slots : Nat → Option (Word × Bool)} {fuel first : Nat}
    (merged : merges slots wakeup fuel first) : deferredSlot slots wakeup fuel first = none := by
  induction fuel generalizing first with
  | zero => rfl
  | succ fuel ih =>
      rw [merges] at merged
      rw [deferredSlot]
      cases found : slots first with
      | none =>
          rw [found] at merged
          cases merged
      | some other =>
          rw [found] at merged
          by_cases same : other = wakeup
          · exact if_pos same
          · simp only [if_neg same] at merged ⊢
            exact ih merged

theorem give_of_slot (found : deferredSlot requests.slots wakeup schedulerMaxDeferedWake 0 =
      some index) :
    requests.give wakeup = { requests with
      slots := Function.update requests.slots index (some wakeup)
      given := requests.given + 1 } := by
  rw [give, found]

theorem pending_give (found : deferredSlot requests.slots wakeup schedulerMaxDeferedWake 0 =
      some index) :
    (requests.give wakeup).pending other =
      requests.pending other + if wakeup = other then 1 else 0 := by
  obtain ⟨below, free⟩ := deferredSlot_free found
  have more := @count_update index (Option (Word × Bool)) (· = some other) _ requests.slots
    (some wakeup) schedulerMaxDeferedWake (by omega)
  rw [give_of_slot found]
  simpa [pending, free] using more

theorem occupied_give (found : deferredSlot requests.slots wakeup schedulerMaxDeferedWake 0 =
      some index) :
    (requests.give wakeup).occupied = requests.occupied + 1 := by
  obtain ⟨below, free⟩ := deferredSlot_free found
  have more := @count_update index (Option (Word × Bool)) (· ≠ none) _ requests.slots
    (some wakeup) schedulerMaxDeferedWake (by omega)
  rw [give_of_slot found]
  simpa [occupied, free] using more

theorem pending_take (below : index < schedulerMaxDeferedWake) :
    (requests.take index).pending other + (if requests.slots index = some other then 1 else 0) =
      requests.pending other := by
  have less := @count_update index (Option (Word × Bool)) (· = some other) _ requests.slots none
    schedulerMaxDeferedWake below
  simpa [pending, take] using less

theorem occupied_take (below : index < schedulerMaxDeferedWake) :
    (requests.take index).occupied + (if (requests.slots index).isSome then 1 else 0) =
      requests.occupied := by
  have less := @count_update index (Option (Word × Bool)) (· ≠ none) _ requests.slots none
    schedulerMaxDeferedWake below
  simpa [occupied, take, Option.isSome_iff_ne_none] using less

def Counted (requests : Requests) : Prop :=
  requests.given = requests.taken + BitVec.ofNat 32 requests.occupied

theorem Counted.give (counted : requests.Counted) (wakeup : Word × Bool) :
    (requests.give wakeup).Counted := by
  cases found : deferredSlot requests.slots wakeup schedulerMaxDeferedWake 0 with
  | none =>
      rw [Requests.give, found]
      exact counted
  | some index =>
      rw [Counted, occupied_give found, give_of_slot found, BitVec.ofNat_add]
      rw [Counted] at counted
      change requests.given + 1 = requests.taken + (BitVec.ofNat 32 requests.occupied + 1)
      rw [counted, BitVec.add_assoc]

theorem Counted.take (counted : requests.Counted) (below : index < schedulerMaxDeferedWake) :
    (requests.take index).Counted := by
  have less := @occupied_take requests index below
  rw [Counted] at counted ⊢
  change requests.given = _
  rw [counted, ← less]
  simp only [Requests.take]
  by_cases held : (requests.slots index).isSome
  · rw [if_pos held, if_pos held, BitVec.ofNat_add]
    change _ = requests.taken + 1 + _
    rw [BitVec.add_assoc]
    congr 1
    exact BitVec.add_comm _ _
  · rw [if_neg held, if_neg held, Nat.add_zero]

theorem Counted.drained (counted : requests.Counted) (equal : requests.taken = requests.given) :
    requests.pending other = 0 := by
  have few : requests.occupied ≤ schedulerMaxDeferedWake := Nat.count_le _
  have none : requests.occupied = 0 := by
    rw [Counted, ← equal] at counted
    have zero : BitVec.ofNat 32 requests.occupied = 0 := by simpa using counted
    have small := congrArg BitVec.toNat zero
    rw [BitVec.toNat_ofNat, Nat.mod_eq_of_lt] at small
    · exact small
    · exact Nat.lt_of_le_of_lt few (by decide)
  have free := Nat.count_iff_forall_not.mp none
  refine Nat.count_iff_forall_not.mpr fun index below held => ?_
  exact free index below (by simp [held])

end Requests

/-- For each futex: how many tasks would wait if every request were served at once, how many tasks
the requests would have made ready, and how many the drain loop has made ready. -/
structure Tally where
  waiting : Word → Nat
  due : Word → Nat
  ready : Word → Nat

namespace Tally

def call (tally : Tally) (futex : Word) (all : Bool) : Tally :=
  let woken := if all then tally.waiting futex else min 1 (tally.waiting futex)
  { tally with
    waiting := Function.update tally.waiting futex (tally.waiting futex - woken)
    due := Function.update tally.due futex (tally.due futex + woken) }

def join (tally : Tally) (futex : Word) : Tally :=
  { tally with waiting := Function.update tally.waiting futex (tally.waiting futex + 1) }

def drain (tally : Tally) (futex : Word) (woken : Nat) : Tally :=
  { tally with ready := Function.update tally.ready futex (tally.ready futex + woken) }

end Tally

section

variable {R : Type → Type → Type} [Store R] {cores : Nat}

def isFresh (core : Fin cores) (wakeup : Word × Bool) (state : State R cores) : Bool :=
  !Requests.merges (state.requests core).slots wakeup schedulerMaxDeferedWake 0

def tallyAfter [NeZero cores] (core : Fin cores) (counts : Word × Bool → State R cores → Bool)
    (state : State R cores) (action : Action cores) (next : State R cores) (tally : Tally) : Tally :=
  match action with
  | .interruptWake other futex all =>
      if other = core ∧ counts (futex, all) state then tally.call futex all else tally
  | action =>
      match event state action with
      | .wait _ futex _ => tally.join futex
      | .wake futex _ =>
          tally.drain futex ((state.queue (.waiters futex)).length -
            (next.queue (.waiters futex)).length)
      | _ => tally

/-- Every request to the core succeeds, and nothing but its drain loop takes tasks out of the waiter
queues. -/
def OnlyDrains [NeZero cores] (core : Fin cores) (state : State R cores) (action : Action cores) :
    Prop :=
  match action with
  | .interruptWake other futex all =>
      other = core → futexWakeStatus core futex all state = .value 0
  | .switchStep other =>
      match event state (.switchStep other) with
      | .quiet => True
      | .wake _ _ => other = core
      | _ => False
  | action =>
      match event state action with
      | .quiet => True
      | .wait _ _ _ => True
      | _ => False

instance [NeZero cores] (core : Fin cores) (state : State R cores) (action : Action cores) :
    Decidable (OnlyDrains core state action) := by
  unfold OnlyDrains
  split
  · infer_instance
  · split
    · infer_instance
    · infer_instance
    · infer_instance
  · split
    · infer_instance
    · infer_instance
    · infer_instance

end

def tallied (cores : Nat) [NeZero cores] (core : Fin cores)
    (counts : Word × Bool → State Links cores → Bool) :
    System (State Links cores × Tally) (Action cores) :=
  (scheduler cores).record ⟨fun _ => 0, fun _ => 0, fun _ => 0⟩ (tallyAfter core counts)

def Tally.begin {cores : Nat} (state : State Links cores) : Tally :=
  ⟨fun futex => (state.queue (.waiters futex)).length, fun _ => 0, fun _ => 0⟩

structure Covered (requests : Requests) (waiting : Nat) (tally : Tally) (futex : Word) : Prop where
  balance : tally.waiting futex + tally.due futex = waiting + tally.ready futex
  covered : 0 < requests.pending (futex, true) ∨
    waiting ≤ tally.waiting futex + requests.pending (futex, false)

namespace Covered

variable {requests : Requests} {waiting : Nat} {tally : Tally} {futex other : Word} {all : Bool}
  {index : Nat}

theorem call (covered : Covered requests waiting tally futex)
    (found : deferredSlot requests.slots (other, all) schedulerMaxDeferedWake 0 = some index) :
    Covered (requests.give (other, all)) waiting (tally.call other all) futex := by
  have more := fun all' => @Requests.pending_give requests (other, all) (futex, all') index found
  obtain ⟨balance, covered⟩ := covered
  by_cases same : futex = other
  · subst same
    constructor
    · simp only [Tally.call, Function.update_self]
      split
      · omega
      · omega
    · cases all with
      | true =>
          left
          rw [more true, if_pos rfl]
          omega
      | false =>
          rcases covered with pending | enough
          · left
            rw [more true]
            omega
          · right
            rw [more false, if_pos rfl]
            simp only [Tally.call, Function.update_self, Bool.false_eq_true, if_false]
            omega
  · have apart : ∀ all', (other, all) ≠ (futex, all') := by
      intro all' both
      exact same (congrArg Prod.fst both).symm
    simp only [if_neg (apart _), Nat.add_zero] at more
    constructor
    · simp only [Tally.call, Function.update_of_ne same]
      exact balance
    · simp only [Tally.call, Function.update_of_ne same, more]
      exact covered

theorem join (covered : Covered requests waiting tally futex) :
    Covered requests (if futex = other then waiting + 1 else waiting) (tally.join other) futex := by
  obtain ⟨balance, covered⟩ := covered
  by_cases same : futex = other
  · subst same
    rw [if_pos rfl]
    constructor
    · simp only [Tally.join, Function.update_self]
      omega
    · simp only [Tally.join, Function.update_self]
      omega
  · rw [if_neg same]
    constructor
    · simp only [Tally.join, Function.update_of_ne same]
      exact balance
    · simp only [Tally.join, Function.update_of_ne same]
      exact covered

theorem drain (covered : Covered requests waiting tally futex)
    (below : index < schedulerMaxDeferedWake)
    (held : requests.slots index = some (other, all)) {left woken : Nat}
    (leaves : left = if futex = other then if all then 0 else waiting - 1 else waiting)
    (wakes : futex = other → woken = waiting - left) :
    Covered (requests.take index) left (tally.drain other woken) futex := by
  have less := fun all' => @Requests.pending_take requests (futex, all') index below
  simp only [held] at less
  obtain ⟨balance, covered⟩ := covered
  by_cases same : futex = other
  · subst same
    rw [if_pos rfl] at leaves
    have woke := wakes rfl
    have fewer : left ≤ waiting := by
      rw [leaves]
      split
      · omega
      · omega
    constructor
    · simp only [Tally.drain, Function.update_self]
      omega
    · cases all with
      | true =>
          right
          simp [leaves]
      | false =>
          have single := less false
          have several := less true
          rw [if_pos rfl] at single
          rw [if_neg (by simp)] at several
          simp only [Bool.false_eq_true, if_false] at leaves
          simp only [Tally.drain]
          omega
  · have apart : ∀ all', some (other, all) ≠ some (futex, all') := by
      intro all' both
      exact same (congrArg Prod.fst (Option.some_inj.mp both)).symm
    simp only [if_neg (apart _), Nat.add_zero] at less
    rw [if_neg same] at leaves
    subst leaves
    constructor
    · simp only [Tally.drain, Function.update_of_ne same]
      exact balance
    · simp only [Tally.drain, less]
      exact covered

end Covered

section

variable {cores : Nat} [NeZero cores] {state next : State Links cores} {core : Fin cores}
  {action : Action cores}

theorem requests_transition (reached : (scheduler cores).Reachable state)
    (moved : (scheduler cores).step state action = some next) :
    next.requests core = requestsAfter state core action := by
  obtain ⟨follows, abstractly⟩ := (scheduler_simulation cores).reachable reached
  have follow := ((scheduler_simulation cores).step _ _ _ follows abstractly moved).2
  have after : next.plain.requests core = requestsAfter state.plain core action :=
    requests_step follow
  refine Eq.trans ?_ (after.trans ?_)
  · rfl
  · cases action with
    | _ => rfl

theorem counted_of_reachable (reached : (scheduler cores).Reachable state) (core : Fin cores) :
    (state.requests core).Counted := by
  suffices both : (scheduler cores).Reachable state ∧ (state.requests core).Counted from both.2
  refine reached.invariant (motive := fun state =>
    (scheduler cores).Reachable state ∧ (state.requests core).Counted) ?_ ?_
  · intro state begins
    refine ⟨.start begins, ?_⟩
    obtain ⟨memory, sliceDuration, rfl⟩ := begins
    have none : (({ schedulerInit Links.empty Links.empty Links.empty with
        memory := memory, sliceDuration := sliceDuration } : State Links cores).requests
          core).occupied = 0 := by
      refine Nat.count_iff_forall_not.mpr fun index _ held => ?_
      exact held rfl
    rw [Requests.Counted, none]
    rfl
  · rintro state action next ⟨before, counted⟩ moved
    refine ⟨before.step moved, ?_⟩
    rw [requests_transition before moved]
    simp only [requestsAfter]
    split
    · split
      · exact counted.give _
      · exact counted
    · split
      · split
        · rename_i more
          exact counted.take more.2.2
        · exact counted
      · exact counted
    · exact counted

theorem drain_of_wake {futex : Word} {all : Bool} (wakes : switchEvent core state = .wake futex all) :
    ∃ index lastTask, (state.coreLocal core).pc = .drain index lastTask := by
  rcases switchEvent_cases core state with quiet | ⟨index, lastTask, _, _, draining, _⟩ |
      ⟨_, _, _, _, departs⟩ | ⟨_, _, _, exits⟩
  · rw [quiet] at wakes
    cases wakes
  · exact ⟨index, lastTask, draining⟩
  · rw [departs] at wakes
    cases wakes
  · rw [exits] at wakes
    cases wakes

theorem onlyDrains_cases {counts : Word × Bool → State Links cores → Bool} {tally : Tally}
    (allowed : OnlyDrains core state action) :
    (∃ futex all, action = .interruptWake core futex all ∧
        futexWakeStatus core futex all state = .value 0) ∨
      (event state action = .quiet ∧ requestsAfter state core action = state.requests core ∧
        tallyAfter core counts state action next tally = tally) ∨
      (∃ task futex expected, event state action = .wait task futex expected ∧
        requestsAfter state core action = state.requests core ∧
        tallyAfter core counts state action next tally = tally.join futex) ∨
      ∃ index futex all, event state action = .wake futex all ∧ index < schedulerMaxDeferedWake ∧
        (state.requests core).slots index = some (futex, all) ∧
        requestsAfter state core action = (state.requests core).take index ∧
        tallyAfter core counts state action next tally = tally.drain futex
          ((state.queue (.waiters futex)).length - (next.queue (.waiters futex)).length) := by
  cases action with
  | interruptWake other futex all =>
      by_cases same : other = core
      · subst same
        exact Or.inl ⟨futex, all, rfl, allowed rfl⟩
      · refine Or.inr (Or.inl ⟨rfl, ?_, ?_⟩)
        · exact if_neg fun both => same both.1
        · exact if_neg fun both => same both.1
  | switchStep other =>
      have quiet : switchEvent other state = .quiet →
          requestsAfter state core (.switchStep other) = state.requests core →
          (event state (.switchStep other) = .quiet ∧
            requestsAfter state core (.switchStep other) = state.requests core ∧
            tallyAfter core counts state (.switchStep other) next tally = tally) := by
        intro isQuiet same
        exact ⟨isQuiet, same, by simp only [tallyAfter, event, isQuiet]⟩
      simp only [OnlyDrains, event] at allowed
      cases position : (state.coreLocal other).pc with
      | drain index lastTask =>
          by_cases more : (state.coreLocal other).takenWakeCounter ≠
              (state.coreLocal other).givenWakeCounter ∧ index < schedulerMaxDeferedWake
          · cases found : (state.coreLocal other).deferredWake index with
            | none =>
                refine Or.inr (Or.inl (quiet ?_ ?_))
                · simp only [switchEvent, position, if_pos more, found]
                · simp only [requestsAfter, position]
                  split
                  · rename_i both
                    obtain ⟨rfl, _⟩ := both
                    have free : (state.requests other).slots index = none := found
                    simp only [Requests.take, free, Option.isSome_none, Bool.false_eq_true, if_false]
                    rw [← free, Function.update_eq_self]
                  · rfl
            | some wakeup =>
                have wakes : switchEvent other state = .wake wakeup.1 wakeup.2 := by
                  simp only [switchEvent, position, if_pos more, found]
                rw [wakes] at allowed
                obtain rfl : other = core := allowed
                refine Or.inr (Or.inr (Or.inr ⟨index, wakeup.1, wakeup.2, wakes, more.2, found, ?_, ?_⟩))
                · simp only [requestsAfter, position]
                  exact if_pos ⟨trivial, more⟩
                · simp only [tallyAfter, event, wakes]
          · refine Or.inr (Or.inl (quiet ?_ ?_))
            · simp only [switchEvent, position, if_neg more]
            · simp only [requestsAfter, position]
              refine if_neg fun all => more ?_
              obtain ⟨rfl, some⟩ := all
              exact some
      | _ =>
          refine Or.inr (Or.inl (quiet ?_ ?_))
          · split at allowed
            · assumption
            · rename_i wakes
              obtain ⟨index, lastTask, draining⟩ := drain_of_wake wakes
              rw [position] at draining
              cases draining
            · exact allowed.elim
          · simp only [requestsAfter, position]
  | futexWait caller futex value ticks =>
      simp only [OnlyDrains] at allowed
      split at allowed
      · rename_i isQuiet
        exact Or.inr (Or.inl ⟨isQuiet, rfl, by simp only [tallyAfter, isQuiet]⟩)
      · rename_i task waited expected isWait
        exact Or.inr (Or.inr (Or.inl ⟨task, waited, expected, isWait, rfl,
          by simp only [tallyAfter, isWait]⟩))
      · exact allowed.elim
  | _ =>
      simp only [OnlyDrains] at allowed
      split at allowed
      · rename_i isQuiet
        exact Or.inr (Or.inl ⟨isQuiet, rfl, by simp only [tallyAfter, isQuiet]⟩)
      · rename_i task waited expected isWait
        exact Or.inr (Or.inr (Or.inl ⟨task, waited, expected, isWait, rfl,
          by simp only [tallyAfter, isWait]⟩))
      · exact allowed.elim

theorem length_of_added {before after : List Word} {task : Word} (nodup : before.Nodup)
    (nodupAfter : after.Nodup) (absent : task ∉ before)
    (members : ∀ other, other ∈ after ↔ other = task ∨ other ∈ before) :
    after.length = before.length + 1 := by
  have same : after.Perm (task :: before) := by
    refine (List.perm_ext_iff_of_nodup nodupAfter (List.nodup_cons.mpr ⟨absent, nodup⟩)).mpr ?_
    intro other
    rw [members, List.mem_cons]
  exact same.length_eq

theorem length_of_removed {before after : List Word} {task : Word} (nodup : before.Nodup)
    (nodupAfter : after.Nodup) (present : task ∈ before)
    (members : ∀ other, other ∈ after ↔ other ∈ before ∧ other ≠ task) :
    after.length = before.length - 1 := by
  have absent : task ∉ after := fun member => ((members task).mp member).2 rfl
  have more := length_of_added nodupAfter nodup absent (by
    intro other
    rw [members]
    by_cases same : other = task
    · simp [same, present]
    · simp [same])
  omega

theorem length_queue_wait (reached : (scheduler cores).Reachable state)
    (moved : (scheduler cores).step state action = some next) {task entry expected : Word}
    (waits : event state action = .wait task entry expected) (futex : Word) :
    (next.queue (.waiters futex)).length =
        (if futex = entry then (state.queue (.waiters futex)).length + 1
          else (state.queue (.waiters futex)).length) ∧
      next.futex = state.futex := by
  obtain ⟨enabled, performed⟩ := view_transition reached moved
  rw [waits] at enabled performed
  have view := Option.some_inj.mp performed
  have before := wellPlaced_of_reachable reached
  have after := wellPlaced_of_reachable (reached.step moved)
  have members : ∀ other, other ∈ next.queue (.waiters futex) ↔
      (futex = entry ∧ other = task) ∨ other ∈ state.queue (.waiters futex) := by
    intro other
    change next.view.Waits other futex ↔ _
    rw [← view, View.waits_wait]
    rfl
  refine ⟨?_, ?_⟩
  · split
    · rename_i same
      refine length_of_added (before.queues.nodup _) (after.queues.nodup _)
        (enabled.2.1 futex) fun other => ?_
      rw [members, and_iff_right same]
    · rename_i different
      have same : (next.queue (.waiters futex)).Perm (state.queue (.waiters futex)) := by
        refine (List.perm_ext_iff_of_nodup (after.queues.nodup _) (before.queues.nodup _)).mpr ?_
        intro other
        rw [members, or_iff_right fun both => different both.1]
      exact same.length_eq
  · have entries : next.view.futex = state.view.futex := by rw [← view, View.futex_wait]
    exact entries

theorem length_queue_wake (reached : (scheduler cores).Reachable state)
    (moved : (scheduler cores).step state action = some next) {entry : Word} {all : Bool}
    (wakes : event state action = .wake entry all) (futex : Word)
    (untracked : ¬flagSet (state.futex futex).flags schedulerFutexOwnerTracking) :
    (next.queue (.waiters futex)).length =
        (if futex = entry then if all then 0 else (state.queue (.waiters futex)).length - 1
          else (state.queue (.waiters futex)).length) ∧
      next.futex = state.futex := by
  have performed := (view_transition reached moved).2
  rw [wakes] at performed
  obtain ⟨woken, effect⟩ := View.exists_wakes performed
  have ordered := ordered_of_reachable reached
  have before := wellPlaced_of_reachable reached
  have after := wellPlaced_of_reachable (reached.step moved)
  have members : ∀ other, other ∈ next.queue (.waiters futex) ↔
      other ∈ state.queue (.waiters futex) ∧ other ∉ woken := fun other => effect.waits other futex
  refine ⟨?_, effect.entries⟩
  split
  · rename_i same
    subst same
    cases all with
    | true =>
        have none : next.queue (.waiters futex) = [] := by
          refine List.eq_nil_iff_forall_not_mem.mpr fun other member => ?_
          obtain ⟨waited, spared⟩ := (members other).mp member
          exact spared (effect.several ⟨rfl, untracked⟩ other waited)
        simp [none]
    | false =>
        have one : woken.length ≤ 1 := effect.single fun several => by cases several.1
        cases chosen : woken with
        | nil =>
            have none : ∀ other, other ∉ state.queue (.waiters futex) := effect.found chosen
            have left : ∀ other, other ∉ next.queue (.waiters futex) :=
              fun other member => none other ((members other).mp member).1
            rw [List.eq_nil_iff_forall_not_mem.mpr none, List.eq_nil_iff_forall_not_mem.mpr left]
            rfl
        | cons first rest =>
            rw [chosen, List.length_cons] at one
            obtain rfl : rest = [] := List.length_eq_zero_iff.mp (by omega)
            refine length_of_removed (before.queues.nodup _) (after.queues.nodup _)
              (effect.waited first (by simp [chosen])) fun other => ?_
            rw [members, chosen, List.mem_singleton]
  · rename_i different
    have same : (next.queue (.waiters futex)).Perm (state.queue (.waiters futex)) := by
      refine (List.perm_ext_iff_of_nodup (after.queues.nodup _) (before.queues.nodup _)).mpr ?_
      intro other
      rw [members]
      refine and_iff_left_of_imp fun waits chosen => different ?_
      exact ordered.single other futex entry waits (effect.waited other chosen)
    exact same.length_eq

omit [NeZero cores] in
theorem slot_of_status {futex : Word} {all : Bool}
    (succeeds : futexWakeStatus core futex all state = .value 0) :
    requestsAfter state core (.interruptWake core futex all) =
        (state.requests core).give (futex, all) ∧
      (isFresh core (futex, all) state = true →
        ∃ index, deferredSlot (state.requests core).slots (futex, all) schedulerMaxDeferedWake 0 =
          some index) := by
  simp only [futexWakeStatus] at succeeds
  split at succeeds
  · cases succeeds
  · rename_i accepted
    refine ⟨if_pos ⟨rfl, accepted⟩, fun fresh => ?_⟩
    split at succeeds
    · rename_i found
      have notMerged : Requests.merges (state.requests core).slots (futex, all)
          schedulerMaxDeferedWake 0 = false := by simpa [isFresh] using fresh
      rw [notMerged, Bool.or_false] at found
      exact Option.isSome_iff_exists.mp found
    · cases succeeds

theorem covered_of_leads {origin final : State Links cores × Tally}
    (reached : (scheduler cores).Reachable origin.1) (begins : origin.2 = .begin origin.1)
    (leads : (tallied cores core (isFresh core)).Leads
      (fun recorded action => OnlyDrains core recorded.1 action) origin final) :
    (scheduler cores).Reachable final.1 ∧
      ∀ futex, ¬flagSet (final.1.futex futex).flags schedulerFutexOwnerTracking →
        Covered (final.1.requests core) (final.1.queue (.waiters futex)).length final.2 futex := by
  refine leads.invariant (motive := fun recorded => (scheduler cores).Reachable recorded.1 ∧
    ∀ futex, ¬flagSet (recorded.1.futex futex).flags schedulerFutexOwnerTracking →
      Covered (recorded.1.requests core) (recorded.1.queue (.waiters futex)).length recorded.2
        futex) ?_ ?_
  · refine ⟨reached, fun futex _ => ⟨?_, Or.inr ?_⟩⟩
    · rw [begins]
      rfl
    · rw [begins]
      exact Nat.le_add_right _ _
  · rintro ⟨state, tally⟩ action ⟨next, later⟩ ⟨before, covered⟩ allowed recorded
    obtain ⟨after, moved, same⟩ := Option.map_eq_some_iff.mp recorded
    obtain ⟨rfl, rfl⟩ := Prod.mk.inj same
    refine ⟨before.step moved, fun futex untracked => ?_⟩
    change Covered (after.requests core) (after.queue (.waiters futex)).length
      (tallyAfter core (isFresh core) state action after tally) futex
    change ¬flagSet (after.futex futex).flags schedulerFutexOwnerTracking at untracked
    rw [requests_transition before moved]
    have still : event state action = .quiet →
        after.queue (.waiters futex) = state.queue (.waiters futex) ∧ after.futex = state.futex := by
      intro quiet
      have performed := (view_transition before moved).2
      rw [quiet] at performed
      have view : state.view = after.view := Option.some_inj.mp performed
      exact ⟨(congrFun (congrArg View.waiters view) futex).symm, (congrArg View.futex view).symm⟩
    rcases @onlyDrains_cases cores _ state after core action (isFresh core) tally allowed with
      ⟨woken, all, rfl, succeeds⟩ | ⟨quiet, requests, tallied⟩ |
      ⟨task, waited, expected, waits, requests, tallied⟩ |
      ⟨index, woken, all, wakes, below, held, requests, tallied⟩
    · obtain ⟨queue, entries⟩ := still rfl
      obtain ⟨requests, slot⟩ := slot_of_status succeeds
      rw [entries] at untracked
      have holds := covered futex untracked
      rw [requests, queue]
      cases fresh : isFresh core (woken, all) state with
      | true =>
          obtain ⟨index, found⟩ := slot fresh
          simp only [tallyAfter, fresh, and_self, if_true]
          exact holds.call found
      | false =>
          have merged : Requests.merges (state.requests core).slots (woken, all)
              schedulerMaxDeferedWake 0 := by simpa [isFresh] using fresh
          simp only [tallyAfter, fresh, Bool.false_eq_true, and_false, if_false]
          rw [Requests.give, Requests.deferredSlot_merges merged]
          exact holds
    · obtain ⟨queue, entries⟩ := still quiet
      rw [entries] at untracked
      rw [requests, tallied, queue]
      exact covered futex untracked
    · obtain ⟨length, entries⟩ := length_queue_wait before moved waits futex
      rw [entries] at untracked
      rw [requests, tallied, length]
      exact (covered futex untracked).join
    · have performed := (view_transition before moved).2
      rw [wakes] at performed
      obtain ⟨_, effect⟩ := View.exists_wakes performed
      have same : after.futex = state.futex := effect.entries
      rw [same] at untracked
      obtain ⟨length, _⟩ := length_queue_wake before moved wakes futex untracked
      rw [requests, tallied]
      refine (covered futex untracked).drain below held length ?_
      rintro rfl
      rfl

/-- Once the drain loop finds no request left, it has made as many tasks of each futex ready as the
requests would have at once, those aside that were merged into an equal one. -/
theorem due_le_ready_of_leads {origin final : State Links cores × Tally}
    (reached : (scheduler cores).Reachable origin.1) (begins : origin.2 = .begin origin.1)
    (leads : (tallied cores core (isFresh core)).Leads
      (fun recorded action => OnlyDrains core recorded.1 action) origin final)
    (drained : (final.1.requests core).taken = (final.1.requests core).given) {futex : Word}
    (untracked : ¬flagSet (final.1.futex futex).flags schedulerFutexOwnerTracking) :
    final.2.due futex ≤ final.2.ready futex := by
  obtain ⟨reachedFinal, covered⟩ := covered_of_leads reached begins leads
  obtain ⟨balance, covers⟩ := covered futex untracked
  have none : ∀ wakeup, (final.1.requests core).pending wakeup = 0 :=
    fun wakeup => (counted_of_reachable reachedFinal core).drained drained
  rw [none, none] at covers
  omega

end

def twoSleepers : List (Action 1) :=
  [Action.create 0 0x1000 { flags := schedulerPrimordialTask, priority := 32 },
    .create 0 0x2000 { priority := 31 }, .create 0 0x3000 { priority := 31 }, .start 0,
    .futexInit 0x100 0x104 0] ++ switchPass ++
    [Action.futexWait 0 0x100 0 schedulerWaitForever] ++ switchPass ++
    [Action.futexWait 0 0x100 0 schedulerWaitForever] ++ switchPass

def twoRequests : List (Action 1) :=
  [.interruptWake 0 0x100 false, .interruptWake 0 0x100 false, .switchEnter 0, .switchStep 0,
    .switchStep 0]

theorem exists_tallied (counts : Word × Bool → State Links 1 → Bool) (setup actions : List (Action 1))
    (check : State Links 1 × Tally → Prop) [DecidablePred check]
    (found : ((scheduler 1).run (fun _ _ => True) (bootState 1) setup).any fun state =>
      ((tallied 1 0 counts).run (fun recorded action => OnlyDrains 0 recorded.1 action)
        (state, .begin state) actions).any fun final => decide (check final)) :
    ∃ origin final, (scheduler 1).Reachable origin.1 ∧ origin.2 = .begin origin.1 ∧
      (tallied 1 0 counts).Leads (fun recorded action => OnlyDrains 0 recorded.1 action) origin
        final ∧ check final := by
  obtain ⟨state, prepared, found⟩ := (Option.any_eq_true _ _).mp found
  obtain ⟨final, performed, checked⟩ := (Option.any_eq_true _ _).mp found
  refine ⟨(state, .begin state), final, ?_, rfl, System.run_leads .refl performed,
    of_decide_eq_true checked⟩
  exact System.run_guarded (.start (initial_bootState 1)) prepared

theorem due_le_ready_of_leads_twoRequests :
    ∃ origin final, (tallied 1 0 (isFresh 0)).Leads
        (fun recorded action => OnlyDrains 0 recorded.1 action) origin final ∧
      final.2.ready 0x100 = 1 ∧ final.2.due 0x100 ≤ final.2.ready 0x100 := by
  obtain ⟨origin, final, reached, begins, leads, drained, untracked, ready⟩ :=
    exists_tallied (isFresh 0) twoSleepers twoRequests
      (fun final => (final.1.requests 0).taken = (final.1.requests 0).given ∧
        ¬flagSet (final.1.futex 0x100).flags schedulerFutexOwnerTracking ∧
        final.2.ready 0x100 = 1) (by decide)
  exact ⟨origin, final, leads, ready,
    due_le_ready_of_leads reached begins leads drained untracked⟩

/-- Counting every request, two of them should have made both tasks ready; the second one was merged
into the first. -/
theorem merged_request_is_lost :
    ∃ origin final, (scheduler 1).Reachable origin.1 ∧ origin.2 = .begin origin.1 ∧
      (tallied 1 0 fun _ _ => true).Leads (fun recorded action => OnlyDrains 0 recorded.1 action)
        origin final ∧
      (final.1.requests 0).taken = (final.1.requests 0).given ∧
      ¬flagSet (final.1.futex 0x100).flags schedulerFutexOwnerTracking ∧
      ¬final.2.due 0x100 ≤ final.2.ready 0x100 :=
  exists_tallied (fun _ _ => true) twoSleepers twoRequests
    (fun final => (final.1.requests 0).taken = (final.1.requests 0).given ∧
      ¬flagSet (final.1.futex 0x100).flags schedulerFutexOwnerTracking ∧
      ¬final.2.due 0x100 ≤ final.2.ready 0x100) (by decide)

end PicoToolkit
