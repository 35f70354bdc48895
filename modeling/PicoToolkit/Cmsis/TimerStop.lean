import PicoToolkit.Cmsis.TimerOrder
import PicoToolkit.Cmsis.TimerThread

/-!
What it takes that a timer stays stopped: when it is taken out of the list, no message about it is on its
way to the callback.
-/

namespace PicoToolkit

open Ring Transition LinkFields

/-- No callback has begun of a timer that was stopped, and none of a timer that was deleted. -/
structure StaysStopped (state : DispatchState) : Prop where
  stopped : ∀ callback ∈ state.callbacks, callback.stopped = false
  deleted : ∀ callback ∈ state.callbacks, callback.deleted = false

def IsPlace (links : Links Unit Word) (current : Node Unit Word) : Prop :=
  current = .head () ∨ listIsLinked links current

/-- No message about the timer is in the queue, and the timer thread is not about to call it back. -/
def Undispatched (state : DispatchState) (timerId : Word) : Prop :=
  timerId ∉ state.timerQueue ∧ state.thread.held ≠ some timerId

/-- A call takes a timer out of the list only while the hook does not hold it, and returns only when no
message about it is on its way; a timer gets into the list only if it is valid and not there yet, at a place
that is still in the list. -/
def KeepsApart (state : DispatchState) : DispatchAction → Prop
  | .hook _ =>
      match state.hook with
      | .inserting _ _ current => IsPlace state.timers.activeTimers current
      | _ => True
  | .advance caller =>
      match state.calls caller with
      | .inserting timerId current =>
          timerValid timerId state.timers = .osOK ∧
            listIsLinked state.timers.activeTimers (.node timerId) = false ∧
            state.hook.held ≠ some timerId ∧ IsPlace state.timers.activeTimers current
      | .testing timerId =>
          listIsLinked state.timers.activeTimers (.node timerId) ∨ state.hook.held ≠ some timerId
      | .removing timerId _ => state.hook.held ≠ some timerId
      | .unlocking timerId deletes => deletes ∨ (state.removed timerId → Undispatched state timerId)
      | .releasing timerId => state.removed timerId ∧ Undispatched state timerId
      | _ => True
  | _ => True

section Decidable

instance (links : Links Unit Word) (current : Node Unit Word) : Decidable (IsPlace links current) :=
  inferInstanceAs (Decidable (_ ∨ _))

instance (state : DispatchState) (timerId : Word) : Decidable (Undispatched state timerId) :=
  inferInstanceAs (Decidable (_ ∧ _))

instance (state : DispatchState) (action : DispatchAction) : Decidable (KeepsApart state action) := by
  unfold KeepsApart
  split
  · split
    all_goals infer_instance
  · split
    all_goals infer_instance
  · infer_instance

end Decidable

structure Apart (state : DispatchState) (entries : List Word) : Prop where
  ring : state.timers.activeTimers.Represents fun _ => entries
  held : ∀ timerId, state.hook.held = some timerId → timerId ∉ entries
  removed : ∀ timerId, state.removed timerId →
    timerId ∉ entries ∧ state.hook.held ≠ some timerId
  stopped : ∀ timerId, state.stopped timerId →
    state.removed timerId ∧ Undispatched state timerId
  deleted : ∀ timerId, state.deleted timerId →
    state.stopped timerId ∧ timerValid timerId state.timers ≠ .osOK
  cleared : ∀ caller timerId, state.calls caller = .releasing timerId →
    timerValid timerId state.timers ≠ .osOK
  stays : ∀ callback ∈ state.callbacks, callback.stopped = false ∧ callback.deleted = false

section Steps

variable {state next : DispatchState} {entries : List Word} {timerId caller : Word}
  {current : Node Unit Word}

theorem update_true_iff {flags : Word → Bool} {other : Word} :
    Function.update flags timerId true other ↔ other = timerId ∨ flags other := by
  by_cases isIt : other = timerId
  · rw [isIt, Function.update_self]
    exact iff_of_true rfl (Or.inl rfl)
  · rw [Function.update_of_ne isIt]
    exact (or_iff_right isIt).symm

theorem update_false_iff {flags : Word → Bool} {other : Word} :
    Function.update flags timerId false other ↔ other ≠ timerId ∧ flags other := by
  by_cases isIt : other = timerId
  · rw [isIt, Function.update_self]
    simp
  · rw [Function.update_of_ne isIt]
    exact (and_iff_right isIt).symm

theorem insertAt_represents {timers : TimerState}
    (ring : timers.activeTimers.Represents fun _ => entries)
    (isPlace : IsPlace timers.activeTimers current) (unlisted : timerId ∉ entries) :
    ∃ entriesAfter, (insertAt timerId current timers).activeTimers.Represents (fun _ => entriesAfter) ∧
      ∀ other, other ∈ entriesAfter ↔ other = timerId ∨ other ∈ entries := by
  cases current with
  | head _ =>
      have held : ∀ found, (none : Option Word) = some found → found ∈ entries := nofun
      have inserted := listInsertBefore_represents ring held unlisted
      exact ⟨_, inserted, fun _ => mem_insertEntry⟩
  | node found =>
      have member : found ∈ entries := by
        rw [← listIsLinked_iff ring]
        exact isPlace.resolve_left nofun
      have held : ∀ entry, some found = some entry → entry ∈ entries := by
        rintro entry ⟨⟩
        exact member
      have inserted := listInsertBefore_represents ring held unlisted
      exact ⟨_, inserted, fun _ => mem_insertEntry⟩

theorem Apart.write (apart : Apart state entries) {timers : TimerState}
    (links : timers.activeTimers = state.timers.activeTimers)
    (markers : ∀ other, (timers.timer other).marker = (state.timers.timer other).marker) :
    Apart { state with timers := timers } entries := by
  refine ⟨links ▸ apart.ring, apart.held, apart.removed, apart.stopped, fun other isDeleted => ?_,
    fun who other isReleasing => ?_, apart.stays⟩
  · obtain ⟨isStopped, invalid⟩ := apart.deleted other isDeleted
    exact ⟨isStopped, timerValid_congr (markers other) ▸ invalid⟩
  · exact timerValid_congr (markers other) ▸ apart.cleared who other isReleasing

theorem Apart.move (apart : Apart state entries) {place : TimerCallPlace}
    (clears : ∀ timerId, place = .releasing timerId → timerValid timerId state.timers ≠ .osOK) :
    Apart (state.move caller place) entries := by
  refine { apart with cleared := fun who other isReleasing => ?_ }
  change Function.update state.calls caller place who = _ at isReleasing
  by_cases isIt : who = caller
  · rw [isIt, Function.update_self] at isReleasing
    exact clears other isReleasing
  · rw [Function.update_of_ne isIt] at isReleasing
    exact apart.cleared who other isReleasing

theorem Apart.lock (apart : Apart state entries) (holder : Option Word) :
    Apart { state with activeTimersLock := holder } entries :=
  { apart with }

theorem Apart.acquire (apart : Apart state entries) (acquired : state.acquire caller = some next) :
    Apart next entries := by
  rw [DispatchState.acquire, Option.ite_none_right_eq_some] at acquired
  obtain rfl := Option.some_inj.mp acquired.2
  exact apart.lock _

theorem Apart.setRemoved (apart : Apart state entries) (unlisted : timerId ∉ entries)
    (notHeld : state.hook.held ≠ some timerId) : Apart (state.setRemoved timerId) entries := by
  refine ⟨apart.ring, apart.held, fun other isRemoved => ?_, fun other isStopped => ?_, apart.deleted,
    apart.cleared, apart.stays⟩
  · rcases update_true_iff.mp isRemoved with rfl | before
    · exact ⟨unlisted, notHeld⟩
    · exact apart.removed other before
  · obtain ⟨before, undispatched⟩ := apart.stopped other isStopped
    exact ⟨update_true_iff.mpr (Or.inr before), undispatched⟩

theorem Apart.remove (apart : Apart state entries) (notHeld : state.hook.held ≠ some timerId) :
    Apart ({ state with timers := removeTimer timerId state.timers }.setRemoved timerId)
      (entries.filter (· ≠ timerId)) := by
  have kept : ∀ other, other ∉ entries → other ∉ entries.filter (· ≠ timerId) := fun _ absent member =>
    absent (List.mem_filter.mp member).1
  have removed : Apart { state with timers := removeTimer timerId state.timers }
      (entries.filter (· ≠ timerId)) := by
    refine ⟨listRemove_represents apart.ring timerId, fun other isHeld => ?_, fun other isRemoved => ?_,
      apart.stopped, apart.deleted, apart.cleared, apart.stays⟩
    · exact kept other (apart.held other isHeld)
    · exact (apart.removed other isRemoved).imp_left (kept other)
  refine removed.setRemoved ?_ notHeld
  simp

theorem Apart.setStopped (apart : Apart state entries)
    (undispatched : state.removed timerId → Undispatched state timerId)
    (notDeleted : state.deleted timerId → state.removed timerId) :
    Apart (state.setStopped timerId) entries := by
  refine ⟨apart.ring, apart.held, apart.removed, fun other isStopped => ?_, fun other isDeleted => ?_,
    apart.cleared, apart.stays⟩
  · change Function.update state.stopped timerId (state.removed timerId) other at isStopped
    by_cases isIt : other = timerId
    · subst isIt
      rw [Function.update_self] at isStopped
      exact ⟨isStopped, undispatched isStopped⟩
    · rw [Function.update_of_ne isIt] at isStopped
      exact apart.stopped other isStopped
  · obtain ⟨isStopped, invalid⟩ := apart.deleted other isDeleted
    refine ⟨?_, invalid⟩
    change Function.update state.stopped timerId (state.removed timerId) other
    by_cases isIt : other = timerId
    · subst isIt
      rw [Function.update_self]
      exact notDeleted isDeleted
    · rw [Function.update_of_ne isIt]
      exact isStopped

theorem Apart.setDeleted (apart : Apart state entries) (isStopped : state.stopped timerId)
    (invalid : timerValid timerId state.timers ≠ .osOK) : Apart (state.setDeleted timerId) entries := by
  refine ⟨apart.ring, apart.held, apart.removed, apart.stopped, fun other isDeleted => ?_,
    apart.cleared, apart.stays⟩
  rcases update_true_iff.mp isDeleted with rfl | before
  · exact ⟨isStopped, invalid⟩
  · exact apart.deleted other before

theorem Apart.insert (apart : Apart state entries) (valid : timerValid timerId state.timers = .osOK)
    (unlisted : timerId ∉ entries) (notHeld : state.hook.held ≠ some timerId)
    (isPlace : IsPlace state.timers.activeTimers current) :
    ∃ entriesAfter, Apart
      ({ state with timers := insertAt timerId current state.timers }.setStarted timerId)
      entriesAfter := by
  obtain ⟨entriesAfter, ring, members⟩ := insertAt_represents apart.ring isPlace unlisted
  refine ⟨entriesAfter, ring, fun other isHeld => ?_, fun other isRemoved => ?_,
    fun other isStopped => ?_, fun other isDeleted => ?_, apart.cleared,
    apart.stays⟩
  · rw [members, not_or]
    refine ⟨?_, apart.held other isHeld⟩
    rintro rfl
    exact notHeld isHeld
  · obtain ⟨different, before⟩ := update_false_iff.mp isRemoved
    rw [members, not_or]
    obtain ⟨absent, apartFromHook⟩ := apart.removed other before
    exact ⟨⟨different, absent⟩, apartFromHook⟩
  · obtain ⟨different, before⟩ := update_false_iff.mp isStopped
    obtain ⟨isRemoved, undispatched⟩ := apart.stopped other before
    exact ⟨update_false_iff.mpr ⟨different, isRemoved⟩, undispatched⟩
  · obtain ⟨isStopped, invalid⟩ := apart.deleted other isDeleted
    refine ⟨update_false_iff.mpr ⟨?_, isStopped⟩, invalid⟩
    rintro rfl
    exact invalid valid

theorem timerValid_clearMarker (timers : TimerState) (timerId : Word) :
    timerValid timerId (clearMarker timerId timers) ≠ .osOK := by
  rw [timerValid, clearMarker, TimerState.timer_setTimer_self]
  split
  · exact fun same => by cases same
  · change osIsResourceValid 0 rtosTimerMarker ≠ .osOK
    decide

theorem Apart.clear (apart : Apart state entries) :
    Apart { state with timers := clearMarker timerId state.timers } entries := by
  have keeps : ∀ other, timerValid other state.timers ≠ .osOK →
      timerValid other (clearMarker timerId state.timers) ≠ .osOK := by
    intro other invalid
    by_cases isIt : other = timerId
    · rw [isIt]
      exact timerValid_clearMarker state.timers timerId
    · have same : ((clearMarker timerId state.timers).timer other).marker =
          (state.timers.timer other).marker := by
        rw [clearMarker, TimerState.timer_setTimer_of_ne isIt]
      rwa [timerValid_congr same]
  exact ⟨apart.ring, apart.held, apart.removed, apart.stopped,
    fun other isDeleted => (apart.deleted other isDeleted).imp_right (keeps other),
    fun who other isReleasing => keeps other (apart.cleared who other isReleasing),
    apart.stays⟩

theorem Apart.thread (apart : Apart state entries) (moved : timerThreadStep state = some next) :
    Apart next entries := by
  rw [timerThreadStep] at moved
  split at moved
  · split at moved
    · cases moved
    · rename_i timerId rest isQueue
      obtain rfl := Option.some_inj.mp moved
      refine { apart with stopped := fun other isStopped => ?_ }
      obtain ⟨isRemoved, absent, _⟩ := apart.stopped other isStopped
      rw [isQueue, List.mem_cons, not_or] at absent
      refine ⟨isRemoved, absent.2, ?_⟩
      change (if timerId = 0 then TimerThreadPlace.ended else .dispatching timerId).held ≠ some other
      split
      · exact nofun
      · intro same
        exact absent.1 (Option.some_inj.mp same).symm
  · rename_i timerId isPlace
    obtain rfl := Option.some_inj.mp moved
    have notStopped : ¬state.stopped timerId := by
      intro isStopped
      apply (apart.stopped timerId isStopped).2.2
      rw [isPlace]
      rfl
    have notDeleted : ¬state.deleted timerId := fun isDeleted =>
      notStopped (apart.deleted timerId isDeleted).1
    refine { apart with
      stopped := fun other isStopped => ?_
      stays := fun callback member => ?_ }
    · obtain ⟨isRemoved, absent, _⟩ := apart.stopped other isStopped
      exact ⟨isRemoved, absent, nofun⟩
    · rcases List.mem_append.mp member with before | isNew
      · exact apart.stays callback before
      · obtain rfl := List.mem_singleton.mp isNew
        exact ⟨Bool.eq_false_of_not_eq_true notStopped, Bool.eq_false_of_not_eq_true notDeleted⟩
  · obtain rfl := Option.some_inj.mp moved
    refine { apart with stopped := fun other isStopped => ?_ }
    obtain ⟨isRemoved, absent, _⟩ := apart.stopped other isStopped
    exact ⟨isRemoved, absent, nofun⟩
  · cases moved

theorem Apart.letGo (apart : Apart state entries) {place : HookPlace} (free : place.held = none) :
    Apart { state with hook := place } entries := by
  have notHeld : ∀ other, place.held ≠ some other := by
    rw [free]
    exact nofun
  refine { apart with
    held := fun other isHeld => (notHeld other isHeld).elim
    removed := fun other isRemoved => ⟨(apart.removed other isRemoved).1, notHeld other⟩ }

theorem Apart.hold (apart : Apart state entries) {place : HookPlace}
    (same : place.held = state.hook.held) : Apart { state with hook := place } entries := by
  refine { apart with
    held := fun other isHeld => apart.held other (same ▸ isHeld)
    removed := fun other isRemoved => ?_ }
  obtain ⟨absent, notHeld⟩ := apart.removed other isRemoved
  exact ⟨absent, same ▸ notHeld⟩

theorem Apart.pop (apart : Apart state entries)
    (popped : (listPop state.timers.activeTimers (.head ())).1 = some (.node timerId)) :
    ∃ rest, Apart { state with timers := popExpired state.timers, hook := .posting timerId } rest := by
  cases entries with
  | nil =>
      have isEmpty : listIsEmpty state.timers.activeTimers (.head ()) :=
        (listIsEmpty_iff apart.ring).mpr rfl
      rw [listPop, if_pos isEmpty] at popped
      cases popped
  | cons first rest =>
      obtain ⟨isFirst, ring⟩ := listPop_eq apart.ring rfl
      obtain rfl := Node.node.inj (Option.some_inj.mp (isFirst.symm.trans popped))
      have unique : (first :: rest).Nodup := apart.ring.nodup ()
      refine ⟨rest, ring, fun other isHeld => ?_, fun other isRemoved => ?_, apart.stopped,
        apart.deleted, apart.cleared, apart.stays⟩
      · obtain rfl := Option.some_inj.mp isHeld
        exact (List.nodup_cons.mp unique).1
      · have absent := (apart.removed other isRemoved).1
        rw [List.mem_cons, not_or] at absent
        refine ⟨absent.2, fun isHeld => ?_⟩
        exact absent.1 (Option.some_inj.mp isHeld).symm

theorem Apart.post (apart : Apart state entries) (isHeld : state.hook.held = some timerId) :
    Apart { state with timerQueue := state.timerQueue ++ [timerId] } entries := by
  refine { apart with stopped := fun other isStopped => ?_ }
  obtain ⟨isRemoved, absent, notDispatched⟩ := apart.stopped other isStopped
  refine ⟨isRemoved, fun member => ?_, notDispatched⟩
  rcases List.mem_append.mp member with before | isNew
  · exact absent before
  · obtain rfl := List.mem_singleton.mp isNew
    exact (apart.removed other isRemoved).2 isHeld

theorem Apart.putBack (apart : Apart state entries) (isHeld : state.hook.held = some timerId)
    (isPlace : IsPlace state.timers.activeTimers current) {place : HookPlace}
    (free : place.held = none) :
    ∃ entriesAfter, Apart { state with timers := insertAt timerId current state.timers, hook := place }
      entriesAfter := by
  obtain ⟨entriesAfter, ring, members⟩ :=
    insertAt_represents apart.ring isPlace (apart.held timerId isHeld)
  have notHeld : ∀ other, place.held ≠ some other := by
    rw [free]
    exact nofun
  refine ⟨entriesAfter, ring, fun other held => (notHeld other held).elim, fun other isRemoved => ?_,
    apart.stopped, apart.deleted, apart.cleared, apart.stays⟩
  obtain ⟨absent, different⟩ := apart.removed other isRemoved
  rw [members, not_or]
  refine ⟨⟨?_, absent⟩, notHeld other⟩
  rintro rfl
  exact different isHeld

theorem markers_refuse (ticks expired : Word) (timers : TimerState) (other : Word) :
    ((refuse ticks expired timers).timer other).marker = (timers.timer other).marker := by
  by_cases isIt : other = expired
  · rw [isIt, refuse_self.1]
  · rw [(refuse_of_ne isIt).1]

theorem markers_rearm (ticks expired : Word) (timers : TimerState) (other : Word) :
    ((rearm ticks expired timers).timer other).marker = (timers.timer other).marker := by
  by_cases isIt : other = expired
  · rw [isIt, rearm_self.1]
  · rw [(rearm_of_ne isIt).1]

theorem markers_startedTimer (timerId : Word) (timers : TimerState) (ticks other : Word) :
    ((startedTimer timerId timers ticks).timer other).marker = (timers.timer other).marker := by
  by_cases isIt : other = timerId
  · rw [isIt, timer_startedTimer_self]
  · rw [timer_startedTimer_of_ne _ _ isIt]

theorem Apart.hook (apart : Apart state entries) {osStatus : OsStatus}
    (keeps : KeepsApart state (.hook osStatus)) (moved : hookStep osStatus state = some next) :
    ∃ entriesAfter, Apart next entriesAfter := by
  cases place : state.hook with
  | idle =>
      simp only [hookStep, place] at moved
      cases moved
  | looking =>
      simp only [hookStep, place] at moved
      split at moved
      all_goals
        obtain rfl := Option.some_inj.mp moved
        exact ⟨entries, apart.letGo rfl⟩
  | popping =>
      simp only [hookStep, place] at moved
      split at moved
      · rename_i expired isFirst
        obtain rfl := Option.some_inj.mp moved
        exact apart.pop isFirst
      · cases moved
  | posting expired =>
      have held : state.hook.held = some expired := congrArg HookPlace.held place
      simp only [hookStep, place] at moved
      split at moved
      · obtain rfl := Option.some_inj.mp moved
        exact ⟨entries, apart.hold held.symm⟩
      · rw [Option.ite_none_right_eq_some] at moved
        obtain rfl := Option.some_inj.mp moved.2
        have posted : Apart { state with
            timers := accept expired state.timers
            timerQueue := state.timerQueue ++ [expired] } entries :=
          (apart.post held).write rfl fun _ => rfl
        refine ⟨entries, ?_⟩
        split
        · exact posted.hold held.symm
        · exact posted.letGo rfl
  | aiming expired full =>
      have held : state.hook.held = some expired := congrArg HookPlace.held place
      simp only [hookStep, place] at moved
      obtain ⟨current, _, rfl⟩ := Option.map_eq_some_iff.mp moved
      have aimed : Apart { state with
          timers :=
            if full then refuse state.timers.tickCount expired state.timers
            else rearm state.timers.tickCount expired state.timers } entries := by
        cases full with
        | true => exact apart.write rfl (markers_refuse _ expired state.timers)
        | false => exact apart.write rfl (markers_rearm _ expired state.timers)
      exact ⟨entries, aimed.hold held.symm⟩
  | inserting expired full current =>
      have held : state.hook.held = some expired := congrArg HookPlace.held place
      simp only [hookStep, place] at moved
      simp only [KeepsApart, place] at keeps
      obtain rfl := Option.some_inj.mp moved
      refine apart.putBack held keeps ?_
      cases full with
      | true => rfl
      | false => rfl

theorem Apart.call (apart : Apart state entries) (keeps : KeepsApart state (.advance caller))
    (moved : callStep caller state = some next) : ∃ entriesAfter, Apart next entriesAfter := by
  cases place : state.calls caller with
  | outside =>
      simp only [callStep, place] at moved
      cases moved
  | starting timerId ticks =>
      simp only [callStep, place] at moved
      obtain rfl := Option.some_inj.mp moved
      have started : Apart { state with timers := startedTimer timerId state.timers ticks } entries :=
        apart.write rfl (markers_startedTimer timerId state.timers ticks)
      exact ⟨entries, started.move fun _ same => by cases same⟩
  | entering timerId =>
      simp only [callStep, place] at moved
      obtain ⟨taken, acquired, rfl⟩ := Option.map_eq_some_iff.mp moved
      exact ⟨entries, (apart.acquire acquired).move fun _ same => by cases same⟩
  | searching timerId =>
      simp only [callStep, place] at moved
      obtain ⟨current, _, rfl⟩ := Option.map_eq_some_iff.mp moved
      exact ⟨entries, apart.move fun _ same => by cases same⟩
  | inserting timerId current =>
      simp only [callStep, place] at moved
      simp only [KeepsApart, place] at keeps
      obtain rfl := Option.some_inj.mp moved
      obtain ⟨valid, unlinked, notHeld, isPlace⟩ := keeps
      have unlisted : timerId ∉ entries := by
        rw [← listIsLinked_iff apart.ring, unlinked]
        exact Bool.false_ne_true
      obtain ⟨entriesAfter, inserted⟩ := apart.insert valid unlisted notHeld isPlace
      exact ⟨entriesAfter, inserted.move fun _ same => by cases same⟩
  | leaving =>
      simp only [callStep, place] at moved
      obtain rfl := Option.some_inj.mp moved
      exact ⟨entries, (apart.lock none).move fun _ same => by cases same⟩
  | stopping timerId =>
      simp only [callStep, place] at moved
      obtain rfl := Option.some_inj.mp moved
      refine ⟨entries, apart.move ?_⟩
      split
      · exact fun _ same => by cases same
      · exact fun _ same => by cases same
  | locking timerId deletes =>
      simp only [callStep, place] at moved
      obtain ⟨taken, acquired, rfl⟩ := Option.map_eq_some_iff.mp moved
      refine ⟨entries, (apart.acquire acquired).move ?_⟩
      cases deletes with
      | true => exact fun _ same => by cases same
      | false => exact fun _ same => by cases same
  | testing timerId =>
      simp only [callStep, place] at moved
      simp only [KeepsApart, place] at keeps
      split at moved
      · obtain rfl := Option.some_inj.mp moved
        exact ⟨entries, apart.move fun _ same => by cases same⟩
      · rename_i unlinked
        obtain rfl := Option.some_inj.mp moved
        have unlisted : timerId ∉ entries := by
          rwa [← listIsLinked_iff apart.ring]
        have removed := apart.setRemoved unlisted (keeps.resolve_left unlinked)
        exact ⟨entries, removed.move fun _ same => by cases same⟩
  | removing timerId deletes =>
      simp only [callStep, place] at moved
      simp only [KeepsApart, place] at keeps
      obtain rfl := Option.some_inj.mp moved
      exact ⟨_, (apart.remove keeps).move fun _ same => by cases same⟩
  | unlocking timerId deletes =>
      simp only [callStep, place] at moved
      simp only [KeepsApart, place] at keeps
      cases deletes with
      | true =>
          obtain rfl := Option.some_inj.mp moved
          exact ⟨entries, (apart.lock none).move fun _ same => by cases same⟩
      | false =>
          obtain rfl := Option.some_inj.mp moved
          have undispatched := keeps.resolve_left Bool.false_ne_true
          refine ⟨entries, Apart.move ((apart.lock none).setStopped undispatched ?_)
            fun _ same => by cases same⟩
          intro isDeleted
          exact (apart.stopped timerId (apart.deleted timerId isDeleted).1).1
  | clearing timerId =>
      simp only [callStep, place] at moved
      obtain rfl := Option.some_inj.mp moved
      refine ⟨entries, apart.clear.move ?_⟩
      rintro _ ⟨⟩
      exact timerValid_clearMarker state.timers timerId
  | releasing timerId =>
      simp only [callStep, place] at moved
      simp only [KeepsApart, place] at keeps
      obtain rfl := Option.some_inj.mp moved
      obtain ⟨isRemoved, undispatched⟩ := keeps
      have released : Apart { state with timers := releaseTimer timerId state.timers } entries :=
        apart.write rfl fun _ => rfl
      have stopped := released.setStopped (fun _ => undispatched) (fun _ => isRemoved)
      refine ⟨entries, Apart.move (stopped.setDeleted ?_ (apart.cleared caller timerId place))
        fun _ same => by cases same⟩
      change Function.update state.stopped timerId (state.removed timerId) timerId
      rw [Function.update_self]
      exact isRemoved

theorem Apart.step (apart : Apart state entries) {action : DispatchAction}
    (keeps : KeepsApart state action) (moved : dispatchSystem.step state action = some next) :
    ∃ entriesAfter, Apart next entriesAfter := by
  cases action with
  | tick =>
      simp only [dispatchSystem] at moved
      split at moved
      · obtain rfl := Option.some_inj.mp moved
        have later : Apart { state with timers := { state.timers with now := state.timers.now + 1 } }
            entries := apart.write rfl fun _ => rfl
        exact ⟨entries, later.letGo rfl⟩
      · cases moved
  | hook osStatus => exact apart.hook keeps moved
  | thread => exact ⟨entries, apart.thread moved⟩
  | call caller timerId request context =>
      simp only [dispatchSystem] at moved
      split at moved
      · obtain rfl := Option.some_inj.mp moved
        refine ⟨entries, ?_⟩
        cases request with
        | start ticks =>
            rw [beginCall]
            split
            · exact apart.move nofun
            · exact apart
        | stop =>
            rw [beginCall]
            split
            · exact apart.move nofun
            · exact apart
        | delete =>
            rw [beginCall]
            split
            · exact apart.move nofun
            · exact apart
      · cases moved
  | advance caller => exact apart.call keeps moved

end Steps

section Runs

variable {state : DispatchState}

def idleDispatch : DispatchState where
  timers := twoTimers
  activeTimersLock := none
  timerQueue := []
  hook := .idle
  thread := .waiting
  calls _ := .outside
  removed _ := false
  stopped _ := false
  deleted _ := false
  callbacks := []

theorem initial_idleDispatch : dispatchSystem.initial idleDispatch :=
  ⟨rfl, rfl, rfl, rfl, rfl, rfl, rfl, rfl, rfl, fun _ => rfl⟩

def startRun (timerId ticks : Word) : List DispatchAction :=
  .call 1 timerId (.start ticks) .thread :: List.replicate 5 (.advance 1)

/-- A tick at which the hook posts a timer of which there is no other one: a periodic one goes back. -/
def tickRun (periodic : Bool) : List DispatchAction :=
  .tick :: List.replicate (if periodic then 6 else 4) (.hook .osOK)

def stopRun (timerId : Word) : List DispatchAction :=
  .call 2 timerId .stop .thread :: List.replicate 4 (.advance 2)

def deleteRun (timerId : Word) : List DispatchAction :=
  .call 2 timerId .delete .thread :: List.replicate 5 (.advance 2)

end Runs

end PicoToolkit
