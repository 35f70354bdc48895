import PicoToolkit.Threads.Condition

/-!
Signals of a condition variable are not lost, as long as no latecomer overtakes those who wait: the
increment of the sequence releases who has not blocked yet, and the wake is for one who has.
-/

namespace PicoToolkit

open Transition

def CondPlace.read : CondPlace → Option Word
  | .mutex value _ | .unlock value _ | .futexWait value _ => some value
  | _ => none

def FewSignals (tasks : List Word) (state : Condition) (history : SignalHistory) : CondAction → Prop
  | .act task =>
      match state.place task with
      | .fetchAdd _ => ∀ waiter ∈ tasks, (state.place waiter).read.isSome →
          history.signals + 1 - history.seen waiter < 2 ^ 32
      | _ => True
  | _ => True

instance (tasks : List Word) (state : Condition) (history : SignalHistory) (action : CondAction) :
    Decidable (FewSignals tasks state history action) := by
  unfold FewSignals
  split
  · split
    · infer_instance
    · infer_instance
  · infer_instance

/-- When a signal wakes one waiter, and all who waited at its call still do, the most urgent waiter is one
of them. -/
def NotOvertaken (state : Condition) (history : SignalHistory) : CondAction → Prop
  | .act task =>
      match state.place task with
      | .futexWake false =>
          (history.signal task).waited ≠ [] →
            (∀ waiter ∈ (history.signal task).waited, waiter ∈ (history.signal task).still) →
            state.waiters.head?.all (· ∈ (history.signal task).waited)
      | _ => True
  | _ => True

instance (state : Condition) (history : SignalHistory) (action : CondAction) :
    Decidable (NotOvertaken state history action) := by
  unfold NotOvertaken
  split
  · split
    · infer_instance
    · infer_instance
  · infer_instance

/-- Every signal that has returned did what it owes, and a task that has been unblocked on its way to the
wait will not block there. -/
structure LosesNoSignal (state : Condition) (history : SignalHistory) : Prop where
  returned : ∀ call ∈ history.returned, call.Unblocks
  certain : ∀ task sequence msec, state.place task = .futexWait sequence msec →
    Waits state history task = false → state.sequence ≠ sequence

/-- The call is one of `cnd_signal` or `cnd_broadcast`. -/
def CondPlace.signals : CondPlace → Option Bool
  | .fetchAdd all | .futexWake all => some all
  | _ => none

namespace Condition

/-- The steps, as far as the queue, the sequence and the signals are concerned. -/
inductive Steps (tasks : List Word) (state : Condition) : CondAction → Condition → Prop
  | stays {action next} : next.place = state.place →
      (∀ task, task ∈ next.waiters ↔ task ∈ state.waiters) → next.sequence = state.sequence →
      (∀ history : SignalHistory, history.update tasks state action next = history.struck next) →
      Steps tasks state action next
  | goes {action next} (task : Word) (place : CondPlace) :
      task ∈ tasks ∨ state.place task ≠ .idle ∧ state.place task ≠ .gone →
      next.place = Function.update state.place task place → next.waiters = state.waiters →
      next.sequence = state.sequence → (state.place task).isBlocked = false →
      place.isBlocked = false → place.signals = none →
      (∀ sequence, place.read = some sequence → (state.place task).read = some sequence) →
      (∀ history : SignalHistory, history.update tasks state action next = history.struck next) →
      Steps tasks state action next
  | signals {next} (task : Word) (all : Bool) : task ∈ tasks → state.place task = .idle →
      next = state.goes task (.fetchAdd all) →
      Steps tasks state (.call task (if all then .cndBroadcast else .cndSignal)) next
  | reads {next} (task msec : Word) : state.place task = .sequence msec →
      next = state.goes task (.mutex state.sequence msec) → Steps tasks state (.act task) next
  | blocks {next} (task sequence msec : Word) : state.place task = .futexWait sequence msec →
      next = { state.goes task (.blocked msec) with
        waiters := insertByUrgency state.priority task state.waiters } →
      Steps tasks state (.act task) next
  | adds {next} (task : Word) (all : Bool) : state.place task = .fetchAdd all →
      next = { state.goes task (.futexWake all) with sequence := state.sequence + 1 } →
      Steps tasks state (.act task) next
  | wakes {next} (task : Word) (all : Bool) : state.place task = .futexWake all →
      next = (state.futexWake all).goes task .idle → Steps tasks state (.act task) next
  | leaves {action next} (task : Word) (place : CondPlace) : place.isBlocked = false →
      place.signals = none → place.read = none → place ≠ .idle →
      (task ∈ tasks ∨ state.place task ≠ .idle ∧ state.place task ≠ .gone) ∨ place = .gone →
      next = { state.goes task place with waiters := state.waiters.filter (· ≠ task) } →
      (∀ history : SignalHistory, history.update tasks state action next = history.struck next) →
      Steps tasks state action next

variable {tasks : List Word} {state next : Condition} {action : CondAction} {task other : Word}
  {place : CondPlace}

@[simp]
theorem goes_self : (state.goes task place).place task = place := Function.update_self ..

theorem goes_of_ne (different : other ≠ task) :
    (state.goes task place).place other = state.place other := Function.update_of_ne different ..

theorem steps_of_call {call : CondCall} (member : task ∈ tasks) (isIdle : state.place task = .idle)
    (moved : state.call task call = some next) : Steps tasks state (.call task call) next := by
  cases call with
  | cndWait =>
      obtain rfl := Option.some_inj.mp moved
      exact .goes task _ (Or.inl member) rfl rfl rfl (by rw [isIdle]; rfl) rfl rfl nofun fun _ => rfl
  | cndTimedwait ticks tmTicks =>
      simp only [Condition.call] at moved
      split at moved
      · obtain rfl := Option.some_inj.mp moved
        exact .stays rfl (fun _ => Iff.rfl) rfl fun _ => rfl
      · obtain rfl := Option.some_inj.mp moved
        exact .goes task _ (Or.inl member) rfl rfl rfl (by rw [isIdle]; rfl) rfl rfl nofun fun _ => rfl
  | cndSignal =>
      obtain rfl := Option.some_inj.mp moved
      exact .signals task false member isIdle rfl
  | cndBroadcast =>
      obtain rfl := Option.some_inj.mp moved
      exact .signals task true member isIdle rfl
  | mtxLock =>
      simp only [Condition.call, Option.ite_none_right_eq_some] at moved
      obtain ⟨_, moved⟩ := moved
      obtain rfl := Option.some_inj.mp moved
      exact .stays rfl (fun _ => Iff.rfl) rfl fun _ => rfl
  | mtxUnlock =>
      obtain rfl := Option.some_inj.mp moved
      exact .stays rfl (fun _ => Iff.rfl) rfl fun _ => rfl

theorem steps_of_advance (moved : state.advance task = some next) :
    Steps tasks state (.act task) next := by
  simp only [advance] at moved
  have plain : ∀ place, state.place task = place → place.signals = none →
      (∀ msec, place ≠ .sequence msec) →
      ∀ history : SignalHistory, history.update tasks state (.act task) next = history.struck next := by
    intro place isPlace quiet notRead history
    simp only [SignalHistory.update, SignalHistory.counted, isPlace]
    cases place with
    | sequence msec => exact (notRead msec rfl).elim
    | fetchAdd | futexWake => cases quiet
    | _ => rfl
  cases isPlace : state.place task with
  | idle | blocked | gone =>
      rw [isPlace] at moved
      cases moved
  | sequence msec =>
      rw [isPlace] at moved
      obtain rfl := Option.some_inj.mp moved
      exact .reads task msec isPlace rfl
  | mutex sequence msec =>
      rw [isPlace] at moved
      obtain rfl := Option.some_inj.mp moved
      refine .goes task (.unlock sequence msec) (Or.inr ?_) rfl rfl rfl ?_ rfl rfl ?_
        (plain _ isPlace rfl fun _ same => by cases same)
      · rw [isPlace]
        exact ⟨(fun same => by cases same), fun same => by cases same⟩
      · rw [isPlace]
        rfl
      · rw [isPlace]
        exact fun _ => id
  | unlock sequence msec =>
      rw [isPlace] at moved
      obtain rfl := Option.some_inj.mp moved
      refine .goes task (.futexWait sequence msec) (Or.inr ?_) rfl rfl rfl ?_ rfl rfl ?_
        (plain _ isPlace rfl fun _ same => by cases same)
      · rw [isPlace]
        exact ⟨(fun same => by cases same), fun same => by cases same⟩
      · rw [isPlace]
        rfl
      · rw [isPlace]
        exact fun _ => id
  | futexWait sequence msec =>
      rw [isPlace] at moved
      obtain rfl := Option.some_inj.mp moved
      by_cases finds : state.sequence = sequence
      · exact .blocks task sequence msec isPlace (if_pos finds)
      · simp only [Condition.futexWait, if_neg finds] at plain ⊢
        refine .goes task (.lock (.value 0)) (Or.inr ?_) rfl rfl rfl ?_ rfl rfl
          (fun _ same => by cases same)
          (plain _ isPlace rfl fun _ same => by cases same)
        · rw [isPlace]
          exact ⟨(fun same => by cases same), fun same => by cases same⟩
        · rw [isPlace]
          rfl
  | lock status =>
      rw [isPlace] at moved
      simp only [Option.ite_none_right_eq_some] at moved
      obtain ⟨_, moved⟩ := moved
      obtain rfl := Option.some_inj.mp moved
      refine .goes task .idle (Or.inr ?_) rfl rfl rfl ?_ rfl rfl (fun _ same => by cases same)
        (plain _ isPlace rfl fun _ same => by cases same)
      · rw [isPlace]
        exact ⟨(fun same => by cases same), fun same => by cases same⟩
      · rw [isPlace]
        rfl
  | fetchAdd all =>
      rw [isPlace] at moved
      obtain rfl := Option.some_inj.mp moved
      exact .adds task all isPlace rfl
  | futexWake all =>
      rw [isPlace] at moved
      obtain rfl := Option.some_inj.mp moved
      exact .wakes task all isPlace rfl

theorem steps_of_broken {status : Result} (moved : state.broken task status = some next) :
    Steps tasks state (.returns task status) next := by
  simp only [broken] at moved
  split at moved
  · rename_i msec isPlace
    simp only [Option.ite_none_left_eq_some] at moved
    obtain ⟨_, moved⟩ := moved
    obtain rfl := Option.some_inj.mp moved
    refine .leaves task (.lock status) rfl rfl rfl nofun (Or.inl (Or.inr ?_)) rfl fun _ => rfl
    rw [isPlace]
    exact ⟨nofun, nofun⟩
  · rename_i isPlace
    simp only [Option.ite_none_right_eq_some] at moved
    obtain ⟨_, moved⟩ := moved
    obtain rfl := Option.some_inj.mp moved
    refine .goes task .idle (Or.inr ?_) rfl rfl rfl ?_ rfl rfl nofun fun _ => rfl
    · rw [isPlace]
      exact ⟨nofun, nofun⟩
    · rw [isPlace]
      rfl
  · cases moved

theorem steps_of_step (moved : step tasks state action = some next) :
    Steps tasks state action next := by
  cases action with
  | call task call =>
      simp only [step] at moved
      split at moved
      · rename_i isIdle
        rw [Option.ite_none_right_eq_some] at moved
        exact steps_of_call moved.1 isIdle moved.2
      · cases moved
  | act task => exact steps_of_advance moved
  | returns task status => exact steps_of_broken moved
  | setPriority task priority =>
      obtain rfl := Option.some_inj.mp moved
      refine .stays rfl (fun other => ?_) rfl fun _ => rfl
      simp only [setPriority]
      split
      · rename_i member
        rw [mem_insertByUrgency, List.mem_filter]
        by_cases same : other = task
        · simp [same, member]
        · simp [same]
      · exact Iff.rfl
  | terminate task =>
      obtain rfl := Option.some_inj.mp moved
      exact .leaves task .gone rfl rfl rfl nofun (Or.inr rfl) rfl fun _ => rfl

end Condition

/-- What a step preserves about the queue, the sequences that have been read and the signals. -/
structure Signalling (tasks : List Word) (state : Condition) (history : SignalHistory) : Prop where
  called : ∀ task, task ∈ tasks ∨ state.place task = .idle ∨ state.place task = .gone
  queued : ∀ task, task ∈ state.waiters ↔ (state.place task).isBlocked
  counted : ∀ task sequence, (state.place task).read = some sequence →
    history.seen task ≤ history.signals ∧ history.signals - history.seen task < 2 ^ 32 ∧
      state.sequence = sequence + BitVec.ofNat 32 (history.signals - history.seen task)
  signals : ∀ task all, (state.place task).signals = some all → (history.signal task).all = all
  waking : ∀ task all, state.place task = .futexWake all →
    ∀ waiter ∈ (history.signal task).still, (state.place waiter).isBlocked
  returned : ∀ call ∈ history.returned, call.Unblocks

namespace Signalling

variable {tasks : List Word} {state next : Condition} {history : SignalHistory}
  {action : CondAction} {task : Word}

/-- Of those who wait for the wake of a signal, those who are not blocked any more are struck off. -/
theorem strike (called : ∀ task, task ∈ tasks ∨ next.place task = .idle ∨ next.place task = .gone)
    (queued : ∀ task, task ∈ next.waiters ↔ (next.place task).isBlocked)
    (counted : ∀ task sequence, (next.place task).read = some sequence →
      history.seen task ≤ history.signals ∧ history.signals - history.seen task < 2 ^ 32 ∧
        next.sequence = sequence + BitVec.ofNat 32 (history.signals - history.seen task))
    (signals : ∀ task all, (next.place task).signals = some all → (history.signal task).all = all)
    (waking : ∀ task all, next.place task = .futexWake all →
      ∀ waiter ∈ (history.signal task).still, Waits next history waiter →
        (next.place waiter).isBlocked)
    (returned : ∀ call ∈ history.returned, call.Unblocks) :
    Signalling tasks next (history.struck next) where
  called := called
  queued := queued
  counted := counted
  signals := signals
  waking task all isPlace waiter member := by
    obtain ⟨member, waits⟩ := List.mem_filter.mp member
    exact waking task all isPlace waiter member waits
  returned := returned

theorem blocked_of_waits {waiter : Word} (wasBlocked : (state.place waiter).isBlocked)
    (same : next.place waiter = state.place waiter ∨ Waits next history waiter = false)
    (waits : Waits next history waiter) : (next.place waiter).isBlocked := by
  rcases same with same | unblocked
  · rwa [same]
  · rw [unblocked] at waits
    cases waits

theorem stays (signalling : Signalling tasks state history) (place : next.place = state.place)
    (members : ∀ task, task ∈ next.waiters ↔ task ∈ state.waiters)
    (sequence : next.sequence = state.sequence) :
    Signalling tasks next (history.struck next) := by
  refine strike ?_ ?_ ?_ ?_ ?_ signalling.returned
  · rw [place]
    exact signalling.called
  · intro task
    rw [members, place]
    exact signalling.queued task
  · rw [place, sequence]
    exact signalling.counted
  · rw [place]
    exact signalling.signals
  · rw [place]
    intro task all isPlace waiter member _
    exact signalling.waking task all isPlace waiter member

theorem change {counts : SignalHistory} {place : CondPlace} (signalling : Signalling tasks state history)
    (places : next.place = Function.update state.place task place)
    (mine : task ∈ tasks ∨ state.place task ≠ .idle ∧ state.place task ≠ .gone ∨ place = .gone)
    (queued : ∀ task, task ∈ next.waiters ↔ (next.place task).isBlocked)
    (counted : ∀ task sequence, (next.place task).read = some sequence →
      counts.seen task ≤ counts.signals ∧ counts.signals - counts.seen task < 2 ^ 32 ∧
        next.sequence = sequence + BitVec.ofNat 32 (counts.signals - counts.seen task))
    (others : ∀ other, other ≠ task → counts.signal other = history.signal other)
    (signals : ∀ all, place.signals = some all → (counts.signal task).all = all)
    (waking : ∀ all, place = .futexWake all → ∀ waiter ∈ (counts.signal task).still,
      Waits next counts waiter → (next.place waiter).isBlocked)
    (unblocked : (state.place task).isBlocked → Waits next counts task = false)
    (returned : counts.returned = history.returned) : Signalling tasks next (counts.struck next) := by
  have self : next.place task = place := by
    rw [places]
    exact Function.update_self ..
  have elsewhere : ∀ other, other ≠ task → next.place other = state.place other := by
    intro other different
    rw [places]
    exact Function.update_of_ne different ..
  refine strike ?_ queued counted ?_ ?_ ?_
  · intro other
    by_cases same : other = task
    · rw [same, self]
      rcases mine with member | ⟨notIdle, notGone⟩ | gone
      · exact Or.inl member
      · rcases signalling.called task with member | isIdle | isGone
        · exact Or.inl member
        · exact (notIdle isIdle).elim
        · exact (notGone isGone).elim
      · exact Or.inr (Or.inr gone)
    · rw [elsewhere other same]
      exact signalling.called other
  · intro other all isPlace
    by_cases same : other = task
    · rw [same, self] at isPlace
      rw [same]
      exact signals all isPlace
    · rw [elsewhere other same] at isPlace
      rw [others other same]
      exact signalling.signals other all isPlace
  · intro other all isPlace waiter member waits
    by_cases same : other = task
    · rw [same, self] at isPlace
      rw [same] at member
      exact waking all isPlace waiter member waits
    · rw [elsewhere other same] at isPlace
      rw [others other same] at member
      have wasBlocked := signalling.waking other all isPlace waiter member
      refine blocked_of_waits wasBlocked ?_ waits
      by_cases own : waiter = task
      · rw [own] at wasBlocked ⊢
        exact Or.inr (unblocked wasBlocked)
      · exact Or.inl (elsewhere waiter own)
  · rw [returned]
    exact signalling.returned

theorem queued_of_goes {place : CondPlace} (signalling : Signalling tasks state history)
    (places : next.place = Function.update state.place task place)
    (waiters : next.waiters = state.waiters) (awake : (state.place task).isBlocked = false)
    (stays : place.isBlocked = false) (other : Word) :
    other ∈ next.waiters ↔ (next.place other).isBlocked := by
  rw [waiters, signalling.queued, places]
  by_cases same : other = task
  · rw [same, Function.update_self, awake, stays]
  · rw [Function.update_of_ne same]

theorem goes {place : CondPlace} (signalling : Signalling tasks state history)
    (mine : task ∈ tasks ∨ state.place task ≠ .idle ∧ state.place task ≠ .gone)
    (places : next.place = Function.update state.place task place)
    (waiters : next.waiters = state.waiters) (sequence : next.sequence = state.sequence)
    (awake : (state.place task).isBlocked = false) (stays : place.isBlocked = false)
    (quiet : place.signals = none)
    (read : ∀ sequence, place.read = some sequence → (state.place task).read = some sequence) :
    Signalling tasks next (history.struck next) := by
  refine signalling.change places (or_assoc.mp (Or.inl mine))
    (signalling.queued_of_goes places waiters awake stays) ?_ (fun _ _ => rfl) ?_ ?_ ?_ rfl
  · intro other value isRead
    rw [sequence]
    rw [places] at isRead
    by_cases same : other = task
    · rw [same, Function.update_self] at isRead
      rw [same]
      exact signalling.counted task value (read value isRead)
    · rw [Function.update_of_ne same] at isRead
      exact signalling.counted other value isRead
  · rw [quiet]
    exact nofun
  · intro all isPlace
    rw [isPlace] at quiet
    cases quiet
  · rw [awake]
    exact nofun

theorem leaves {place : CondPlace} (signalling : Signalling tasks state history)
    (stays : place.isBlocked = false) (quiet : place.signals = none) (unread : place.read = none)
    (mine : (task ∈ tasks ∨ state.place task ≠ .idle ∧ state.place task ≠ .gone) ∨ place = .gone)
    (leaves : next = { state.goes task place with waiters := state.waiters.filter (· ≠ task) }) :
    Signalling tasks next (history.struck next) := by
  have places : next.place = Function.update state.place task place := by rw [leaves]; rfl
  have sequence : next.sequence = state.sequence := by rw [leaves]; rfl
  refine signalling.change places (or_assoc.mp mine) ?_ ?_ (fun _ _ => rfl) ?_ ?_ ?_ rfl
  · intro other
    rw [places, leaves]
    by_cases same : other = task
    · rw [same, Function.update_self, stays]
      simp
    · rw [Function.update_of_ne same, ← signalling.queued]
      simp [same]
  · intro other value isRead
    rw [sequence]
    rw [places] at isRead
    by_cases same : other = task
    · rw [same, Function.update_self, unread] at isRead
      cases isRead
    · rw [Function.update_of_ne same] at isRead
      exact signalling.counted other value isRead
  · rw [quiet]
    exact nofun
  · intro all isPlace
    rw [isPlace] at quiet
    cases quiet
  · intro _
    simp only [Waits, places, Function.update_self]
    cases place with
    | blocked => cases stays
    | futexWait => cases unread
    | _ => rfl

theorem signalsCall {all : Bool} (signalling : Signalling tasks state history) (member : task ∈ tasks)
    (isIdle : state.place task = .idle) :
    Signalling tasks (state.goes task (.fetchAdd all))
      ((history.called tasks state task all).struck (state.goes task (.fetchAdd all))) := by
  have awake : (state.place task).isBlocked = false := by rw [isIdle]; rfl
  refine signalling.change rfl (Or.inl member)
    (signalling.queued_of_goes rfl rfl awake rfl) ?_ ?_ ?_ nofun ?_ rfl
  · intro other value isRead
    by_cases same : other = task
    · rw [same, Condition.goes_self] at isRead
      cases isRead
    · rw [Condition.goes_of_ne same] at isRead
      exact signalling.counted other value isRead
  · exact fun other different => Function.update_of_ne different ..
  · intro kind isKind
    cases isKind
    simp [SignalHistory.called]
  · rw [awake]
    exact nofun

theorem reads {msec : Word} (signalling : Signalling tasks state history)
    (isPlace : state.place task = .sequence msec) :
    Signalling tasks (state.goes task (.mutex state.sequence msec))
      (SignalHistory.struck { history with seen := Function.update history.seen task history.signals }
        (state.goes task (.mutex state.sequence msec))) := by
  have awake : (state.place task).isBlocked = false := by rw [isPlace]; rfl
  refine signalling.change rfl (Or.inr (Or.inl ?_))
    (signalling.queued_of_goes rfl rfl awake rfl) ?_ (fun _ _ => rfl) nofun nofun ?_ rfl
  · rw [isPlace]
    exact ⟨nofun, nofun⟩
  · intro other value isRead
    by_cases same : other = task
    · rw [same, Condition.goes_self] at isRead
      cases isRead
      simp [same, Condition.goes]
    · rw [Condition.goes_of_ne same] at isRead
      simp only [Function.update_of_ne same]
      exact signalling.counted other value isRead
  · rw [awake]
    exact nofun

theorem blocks {sequence msec : Word} (signalling : Signalling tasks state history)
    (isPlace : state.place task = .futexWait sequence msec)
    (blocks : next = { state.goes task (.blocked msec) with
      waiters := insertByUrgency state.priority task state.waiters }) :
    Signalling tasks next (history.struck next) := by
  have awake : (state.place task).isBlocked = false := by rw [isPlace]; rfl
  have places : next.place = Function.update state.place task (.blocked msec) := by rw [blocks]; rfl
  refine signalling.change places (Or.inr (Or.inl ?_)) ?_ ?_ (fun _ _ => rfl) nofun nofun ?_ rfl
  · rw [isPlace]
    exact ⟨nofun, nofun⟩
  · intro other
    rw [places, blocks, mem_insertByUrgency, signalling.queued]
    by_cases same : other = task
    · simp [same, CondPlace.isBlocked]
    · simp [same]
  · intro other value isRead
    rw [places] at isRead
    rw [blocks]
    by_cases same : other = task
    · rw [same, Function.update_self] at isRead
      cases isRead
    · rw [Function.update_of_ne same] at isRead
      exact signalling.counted other value isRead
  · rw [awake]
    exact nofun

theorem adds {all : Bool} (signalling : Signalling tasks state history)
    (isPlace : state.place task = .fetchAdd all)
    (few : ∀ waiter ∈ tasks, (state.place waiter).read.isSome →
      history.signals + 1 - history.seen waiter < 2 ^ 32)
    (adds : next = { state.goes task (.futexWake all) with sequence := state.sequence + 1 }) :
    Signalling tasks next
      (SignalHistory.struck { history with signals := history.signals + 1 } next) := by
  have awake : (state.place task).isBlocked = false := by rw [isPlace]; rfl
  have places : next.place = Function.update state.place task (.futexWake all) := by rw [adds]; rfl
  have counted : ∀ other value, (next.place other).read = some value →
      history.seen other ≤ history.signals + 1 ∧ history.signals + 1 - history.seen other < 2 ^ 32 ∧
        next.sequence = value + BitVec.ofNat 32 (history.signals + 1 - history.seen other) := by
    intro other value isRead
    rw [places] at isRead
    by_cases same : other = task
    · rw [same, Function.update_self] at isRead
      cases isRead
    · rw [Function.update_of_ne same] at isRead
      obtain ⟨seen, _, sequence⟩ := signalling.counted other value isRead
      have member : other ∈ tasks := by
        rcases signalling.called other with member | isIdle | isGone
        · exact member
        · rw [isIdle] at isRead
          cases isRead
        · rw [isGone] at isRead
          cases isRead
      refine ⟨Nat.le_succ_of_le seen, few other member (by rw [isRead]; rfl), ?_⟩
      rw [adds]
      simp only
      rw [sequence, Nat.sub_add_comm seen, BitVec.add_assoc]
      congr 1
      exact (BitVec.ofNat_add ..).symm
  refine signalling.change places (Or.inr (Or.inl ?_)) ?_ counted (fun _ _ => rfl) ?_ ?_ ?_ rfl
  · rw [isPlace]
    exact ⟨nofun, nofun⟩
  · rw [adds]
    exact signalling.queued_of_goes rfl rfl awake rfl
  · intro kind isKind
    cases isKind
    exact signalling.signals task all (by rw [isPlace]; rfl)
  · intro _ _ waiter _ waits
    simp only [Waits] at waits
    cases isWaiter : next.place waiter with
    | blocked => rfl
    | futexWait sequence msec =>
        rw [isWaiter] at waits
        -- a task that has read the sequence did so before the increment
        rw [places] at isWaiter
        by_cases same : waiter = task
        · rw [same, Function.update_self] at isWaiter
          cases isWaiter
        · rw [Function.update_of_ne same] at isWaiter
          have seen := (signalling.counted waiter sequence (by rw [isWaiter]; rfl)).1
          have equal := of_decide_eq_true waits
          omega
    | _ =>
        rw [isWaiter] at waits
        cases waits
  · rw [awake]
    exact nofun

section Wakes

variable {all : Bool}

theorem place_of_wake (other : Word) :
    ((state.futexWake all).goes task .idle).place other =
      if other = task then .idle
      else if other ∈ state.chosen all then .lock (.value 0)
      else state.place other := by
  by_cases same : other = task
  · rw [if_pos same, same, Condition.goes_self]
  · rw [if_neg same, Condition.goes_of_ne same]
    rfl

theorem waits_of_wake {waiter : Word}
    (chosen : waiter ∈ state.chosen all) :
    Waits ((state.futexWake all).goes task .idle) history waiter = false := by
  rw [Waits, place_of_wake, if_pos chosen]
  by_cases same : waiter = task
  · rw [if_pos same]
  · rw [if_neg same]

/-- The wake is for those who have waited since the call, unless one of them has been unblocked already,
or somebody has overtaken them. -/
theorem unblocks_of_wake (isPlace : state.place task = .futexWake all)
    (signalling : Signalling tasks state history)
    (fair : NotOvertaken state history (.act task)) :
    ((history.struck ((state.futexWake all).goes task .idle)).signal task).Unblocks := by
  have isAll := signalling.signals task all (by rw [isPlace]; rfl)
  have waiting : ∀ waiter ∈ (history.signal task).still, waiter ∈ state.waiters :=
    fun waiter member => (signalling.queued waiter).mpr (signalling.waking task all isPlace waiter member)
  simp only [SignalCall.Unblocks, SignalHistory.struck, SignalCall.strike, isAll]
  cases all with
  | true =>
      rw [if_pos rfl, List.filter_eq_nil_iff]
      intro waiter member
      rw [waits_of_wake (waiting waiter member)]
      exact Bool.false_ne_true
  | false =>
      rw [if_neg Bool.false_ne_true]
      intro some_
      by_cases unheard : ∀ waiter ∈ (history.signal task).waited, waiter ∈ (history.signal task).still
      · obtain ⟨waiter, rest, isWaited⟩ := List.exists_cons_of_ne_nil some_
        have queued := waiting waiter (unheard waiter (isWaited ▸ List.mem_cons_self ..))
        obtain ⟨first, others, isQueue⟩ := List.exists_cons_of_ne_nil (List.ne_nil_of_mem queued)
        simp only [NotOvertaken, isPlace] at fair
        have first_ := fair some_ unheard
        rw [isQueue, List.head?_cons, Option.all_some, decide_eq_true_eq] at first_
        refine ⟨first, first_, fun member => ?_⟩
        have waits := (List.mem_filter.mp member).2
        have chosen : first ∈ state.chosen false := by
          rw [Condition.chosen, isQueue]
          exact List.mem_singleton_self first
        rw [waits_of_wake chosen] at waits
        cases waits
      · simp only [not_forall] at unheard
        obtain ⟨waiter, member, struck⟩ := unheard
        exact ⟨waiter, member, fun member => struck (List.mem_filter.mp member).1⟩

theorem wakes (signalling : Signalling tasks state history)
    (isPlace : state.place task = .futexWake all) (fair : NotOvertaken state history (.act task)) :
    Signalling tasks ((state.futexWake all).goes task .idle)
      ((history.struck ((state.futexWake all).goes task .idle)).returns task) := by
  have places := @place_of_wake state task all
  have asleep : ∀ other, other ∈ state.chosen all → (state.place other).isBlocked := by
    intro other member
    refine (signalling.queued other).mp ?_
    simp only [Condition.chosen] at member
    split at member
    · exact member
    · exact List.mem_of_mem_take member
  have struck : Signalling tasks ((state.futexWake all).goes task .idle)
      (history.struck ((state.futexWake all).goes task .idle)) := by
    refine strike ?_ ?_ ?_ ?_ ?_ signalling.returned
    · intro other
      rw [places]
      split
      · exact Or.inr (Or.inl rfl)
      · split
        · rename_i member
          have isBlocked := asleep other member
          rcases signalling.called other with member | isIdle | isGone
          · exact Or.inl member
          · rw [isIdle] at isBlocked
            cases isBlocked
          · rw [isGone] at isBlocked
            cases isBlocked
        · exact signalling.called other
    · intro other
      rw [places]
      have queue : ((state.futexWake all).goes task .idle).waiters =
          state.waiters.filter (· ∉ state.chosen all) := rfl
      rw [queue, List.mem_filter, signalling.queued]
      split
      · rename_i same
        rw [same, isPlace]
        simp [CondPlace.isBlocked]
      · split
        · rename_i member
          simp [member, CondPlace.isBlocked]
        · rename_i member
          simp [member]
    · intro other value isRead
      rw [places] at isRead
      split at isRead
      · cases isRead
      · split at isRead
        · cases isRead
        · exact signalling.counted other value isRead
    · intro other kind isKind
      rw [places] at isKind
      split at isKind
      · cases isKind
      · split at isKind
        · cases isKind
        · exact signalling.signals other kind isKind
    · intro other kind isOther waiter member waits
      rw [places] at isOther
      split at isOther
      · cases isOther
      · split at isOther
        · cases isOther
        · have wasBlocked := signalling.waking other kind isOther waiter member
          refine blocked_of_waits wasBlocked ?_ waits
          by_cases chosen : waiter ∈ state.chosen all
          · exact Or.inr (waits_of_wake chosen)
          · refine Or.inl ?_
            rw [places, if_neg chosen, if_neg]
            intro same
            rw [same, isPlace] at wasBlocked
            cases wasBlocked
  refine ⟨struck.called, struck.queued, struck.counted, struck.signals, struck.waking, ?_⟩
  intro call member
  rcases List.mem_cons.mp member with rfl | old
  · exact signalling.unblocks_of_wake isPlace fair
  · exact struck.returned call old

end Wakes

theorem step (signalling : Signalling tasks state history)
    (few : FewSignals tasks state history action) (fair : NotOvertaken state history action)
    (moved : Condition.step tasks state action = some next) :
    Signalling tasks next (history.update tasks state action next) := by
  cases Condition.steps_of_step moved with
  | stays place members sequence plain =>
      rw [plain]
      exact signalling.stays place members sequence
  | goes task place mine places waiters sequence awake stays quiet read plain =>
      rw [plain]
      exact signalling.goes mine places waiters sequence awake stays quiet read
  | signals task all member isIdle goes =>
      subst goes
      cases all with
      | _ => exact signalling.signalsCall member isIdle
  | reads task msec isPlace goes =>
      subst goes
      simp only [SignalHistory.update, SignalHistory.counted, isPlace]
      exact signalling.reads isPlace
  | blocks task sequence msec isPlace goes =>
      simp only [SignalHistory.update, SignalHistory.counted, isPlace]
      exact signalling.blocks isPlace goes
  | adds task all isPlace goes =>
      simp only [FewSignals, isPlace] at few
      simp only [SignalHistory.update, SignalHistory.counted, isPlace]
      exact signalling.adds isPlace few goes
  | wakes task all isPlace goes =>
      subst goes
      simp only [SignalHistory.update, SignalHistory.counted, isPlace]
      exact signalling.wakes isPlace fair
  | leaves task place stays quiet unread _ mine leaves plain =>
      rw [plain]
      exact signalling.leaves stays quiet unread mine leaves

theorem losesNoSignal (signalling : Signalling tasks state history) : LosesNoSignal state history where
  returned := signalling.returned
  certain task sequence msec isPlace unblocked same := by
    obtain ⟨seen, few, isSequence⟩ := signalling.counted task sequence (by rw [isPlace]; rfl)
    simp only [Waits, isPlace, decide_eq_false_iff_not] at unblocked
    rw [same] at isSequence
    have nothing : BitVec.ofNat 32 (history.signals - history.seen task) = 0 := by
      have cancel := BitVec.add_right_eq_self.mp isSequence.symm
      exact cancel
    have zero := congrArg BitVec.toNat nothing
    rw [BitVec.toNat_ofNat, Nat.mod_eq_of_lt few] at zero
    change history.signals - history.seen task = 0 at zero
    omega

end Signalling

/-- As long as no latecomer overtakes those who waited when a signal was called, no signal is lost; a
broadcast never is. -/
theorem losesNoSignal_of_guarded {tasks : List Word} {recorded : Condition × SignalHistory}
    (reached : (signalSystem tasks).Guarded (fun recorded action =>
      FewSignals tasks recorded.1 recorded.2 action ∧ NotOvertaken recorded.1 recorded.2 action)
      recorded) : LosesNoSignal recorded.1 recorded.2 := by
  refine @Signalling.losesNoSignal tasks _ _ ?_
  refine reached.invariant (motive := fun recorded => Signalling tasks recorded.1 recorded.2) ?_ ?_
  · rintro ⟨state, history⟩ ⟨⟨idle, nobody⟩, fresh⟩
    obtain rfl : history = {} := fresh
    refine ⟨fun task => Or.inr (Or.inl (idle task)), fun task => ?_, ?_, ?_, ?_, nofun⟩
    · rw [nobody, idle]
      exact ⟨nofun, nofun⟩
    · intro task sequence isRead
      rw [idle] at isRead
      cases isRead
    · intro task all isSignal
      rw [idle] at isSignal
      cases isSignal
    · intro task all isPlace
      rw [idle] at isPlace
      cases isPlace
  · rintro ⟨state, history⟩ action recorded signalling ⟨few, fair⟩ moved
    obtain ⟨next, stepped, rfl⟩ := Option.map_eq_some_iff.mp moved
    exact signalling.step few fair stepped

def idleCondition : Condition where
  place _ := .idle
  priority task := if task = 0x1000 then 32 else 31

def threeTasks : List Word := [0x1000, 0x2000, 0x3000]

theorem initial_idleCondition {tasks : List Word} :
    (signalSystem tasks).initial (idleCondition, {}) := ⟨⟨fun _ => rfl, rfl⟩, rfl⟩

def waitsForSignal (task : Word) : List CondAction :=
  [CondAction.call task .mtxLock, .call task .cndWait] ++ List.replicate 4 (CondAction.act task)

theorem losesNoSignal_of_guarded_run :
    ∃ recorded : Condition × SignalHistory,
      recorded.2.returned = [⟨true, [0x1000], []⟩, ⟨false, [0x1000, 0x2000], [0x1000]⟩] ∧
        LosesNoSignal recorded.1 recorded.2 := by
  obtain ⟨recorded, reached, returned⟩ := @System.exists_of_run _ _ (signalSystem threeTasks)
    (fun recorded action =>
      FewSignals threeTasks recorded.1 recorded.2 action ∧ NotOvertaken recorded.1 recorded.2 action)
    (fun _ _ => inferInstanceAs (Decidable (_ ∧ _))) _ initial_idleCondition
    (List.flatten [waitsForSignal 0x1000, waitsForSignal 0x2000,
      [.call 0x3000 .cndSignal, .act 0x3000, .act 0x3000],
      [.call 0x3000 .cndBroadcast, .act 0x3000, .act 0x3000]])
    (fun recorded => recorded.2.returned =
      [⟨true, [0x1000], []⟩, ⟨false, [0x1000, 0x2000], [0x1000]⟩])
    (fun _ => inferInstanceAs (Decidable (_ = _))) (by decide)
  exact ⟨recorded, returned, losesNoSignal_of_guarded reached⟩

/-- A task waits, and another one signals without the mutex; before the wake a more urgent task comes to
wait, and is woken in its place. -/
theorem not_losesNoSignal :
    ¬∀ recorded : Condition × SignalHistory,
      (signalSystem threeTasks).Guarded (fun recorded action =>
        FewSignals threeTasks recorded.1 recorded.2 action) recorded →
      LosesNoSignal recorded.1 recorded.2 := by
  intro never
  obtain ⟨recorded, reached, lost⟩ := @System.exists_of_run _ _ (signalSystem threeTasks)
    (fun recorded action => FewSignals threeTasks recorded.1 recorded.2 action) _ _
    initial_idleCondition
    (List.flatten [waitsForSignal 0x1000, [.call 0x3000 .cndSignal, .act 0x3000],
      waitsForSignal 0x2000, [.act 0x3000]])
    (fun recorded => recorded.2.returned = [⟨false, [0x1000], [0x1000]⟩])
    (fun _ => inferInstanceAs (Decidable (_ = _))) (by decide)
  have unblocks := (never recorded reached).returned ⟨false, [0x1000], [0x1000]⟩
    (lost ▸ List.mem_singleton_self _)
  exact absurd unblocks (by decide)

end PicoToolkit
