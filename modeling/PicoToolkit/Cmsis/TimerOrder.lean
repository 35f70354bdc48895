import PicoToolkit.Cmsis.Timers

/-!
The list of active timers: a well-formed ring in order of the targets, which holds exactly the running
timers, as long as no running timer is started.
-/

namespace PicoToolkit

open Ring Transition LinkFields

structure Ordered (state : TimerState) (entries : List Word) : Prop where
  ring : state.activeTimers.Represents fun _ => entries
  sorted : entries.Pairwise fun earlier later =>
    (state.timer earlier).target ≤ (state.timer later).target

structure Listed (state : TimerState) (entries : List Word) : Prop extends Ordered state entries where
  running : ∀ timerId, timerId ∈ entries ↔ state.running timerId
  valid : ∀ timerId ∈ entries, timerValid timerId state = .osOK

section Lists

variable {state next : TimerState} {entries rest : List Word} {timerId first ticks : Word}

theorem Ordered.congr (ordered : Ordered state entries)
    (links : next.activeTimers = state.activeTimers)
    (targets : ∀ other ∈ entries, (next.timer other).target = (state.timer other).target) :
    Ordered next entries := by
  refine ⟨links ▸ ordered.ring, ordered.sorted.imp_of_mem ?_⟩
  intro earlier later inEarlier inLater order
  rw [targets earlier inEarlier, targets later inLater]
  exact order

theorem Ordered.nodup (ordered : Ordered state entries) : entries.Nodup := ordered.ring.nodup ()

theorem Ordered.change (ordered : Ordered state entries) (unlisted : timerId ∉ entries)
    (links : next.activeTimers = state.activeTimers)
    (others : ∀ other, other ≠ timerId → next.timer other = state.timer other) :
    Ordered next entries := by
  refine ordered.congr links fun other member => ?_
  rw [others other (ne_of_mem_of_not_mem member unlisted)]

theorem Ordered.insert (ordered : Ordered state entries) (unlisted : timerId ∉ entries) :
    ∃ links entriesAfter, insertInOrder timerId state = some { state with activeTimers := links } ∧
      Ordered { state with activeTimers := links } entriesAfter ∧
      ∀ other, other ∈ entriesAfter ↔ other = timerId ∨ other ∈ entries := by
  obtain ⟨entry, found, ring⟩ := listInsert_represents ordered.ring
    (fun current => decide ((state.timer timerId).target < (state.timer current).target)) unlisted
  refine ⟨_, _, ?_, ⟨ring, ?_⟩, fun other => mem_insertEntry⟩
  · rw [insertInOrder, found]
    rfl
  · apply pairwise_insertEntry ordered.sorted
    · intro other _ notLater
      simpa using notLater
    · intro other _ later
      exact BitVec.le_of_lt (of_decide_eq_true later)
    · intro earlier _ later _ order isLater
      have less := of_decide_eq_true isLater
      apply decide_eq_true
      bv_omega

theorem expiredTimer_nil (ordered : Ordered state []) : expiredTimer ticks state = none := by
  have next : state.activeTimers.next (.head ()) = .head () := (ordered.ring.ring ()).first
  rw [expiredTimer, next]

theorem expiredTimer_cons (ordered : Ordered state (first :: rest)) :
    expiredTimer ticks state = if (state.timer first).target ≤ ticks then some first else none := by
  have next : state.activeTimers.next (.head ()) = .node first := (ordered.ring.ring ()).first
  have some_ : listIsEmpty state.activeTimers (.head ()) = false := by
    apply Bool.eq_false_of_not_eq_true
    rw [listIsEmpty_iff ordered.ring]
    exact List.cons_ne_nil _ _
  rw [expiredTimer, next]
  simp only [some_, Bool.not_false, Bool.true_and, decide_eq_true_eq]

theorem Ordered.expired (ordered : Ordered state entries)
    (isExpired : expiredTimer ticks state = some first) :
    (state.timer first).target ≤ ticks ∧ ∃ rest, entries = first :: rest ∧ first ∉ rest ∧
      Ordered (popExpired state) rest := by
  cases entries with
  | nil =>
      rw [expiredTimer_nil ordered] at isExpired
      cases isExpired
  | cons head rest =>
      rw [expiredTimer_cons ordered, Option.ite_none_right_eq_some] at isExpired
      obtain ⟨reached, same⟩ := isExpired
      obtain rfl := Option.some_inj.mp same
      refine ⟨reached, rest, rfl, (List.nodup_cons.mp ordered.nodup).1, ?_⟩
      exact ⟨(listPop_eq ordered.ring rfl).2, (List.pairwise_cons.mp ordered.sorted).2⟩

theorem Ordered.unexpired (ordered : Ordered state entries)
    (none_ : expiredTimer ticks state = none) {timerId : Word} (member : timerId ∈ entries) :
    ticks < (state.timer timerId).target := by
  cases entries with
  | nil => cases member
  | cons head rest =>
      rw [expiredTimer_cons ordered, ite_eq_right_iff] at none_
      have early : ticks < (state.timer head).target :=
        BitVec.not_le.mp fun reached => Option.some_ne_none _ (none_ reached)
      rcases List.mem_cons.mp member with rfl | later
      · exact early
      · have order := (List.pairwise_cons.mp ordered.sorted).1 timerId later
        bv_omega

/-- What becomes of an expired timer that the hook has tried to post: it goes back into the list with a
new target, or it is over. -/
inductive Posted (ticks expired : Word) (state next : TimerState) (rest entries : List Word) :
    OsStatus → Prop
  | refused {links : Links Unit Word} :
      next = { refuse ticks expired state with activeTimers := links } →
      (∀ other, other ∈ entries ↔ other = expired ∨ other ∈ rest) →
      Posted ticks expired state next rest entries .osErrorResource
  | again {links : Links Unit Word} : (state.timer expired).type = .osTimerPeriodic →
      next = { rearm ticks expired (accept expired state) with activeTimers := links } →
      (∀ other, other ∈ entries ↔ other = expired ∨ other ∈ rest) →
      Posted ticks expired state next rest entries .osOK
  | once : (state.timer expired).type = .osTimerOnce →
      next = (accept expired state).setRunning expired false → entries = rest →
      Posted ticks expired state next rest entries .osOK

theorem Ordered.posted (ordered : Ordered state rest) (unlisted : first ∉ rest)
    {osStatus : OsStatus} (expected : osStatus = .osErrorResource ∨ osStatus = .osOK) :
    ∃ next entries, afterPost ticks first osStatus state = some next ∧ Ordered next entries ∧
      Posted ticks first state next rest entries osStatus := by
  rcases expected with rfl | rfl
  · have aimed : Ordered (refuse ticks first state) rest :=
      ordered.change unlisted rfl fun _ other => Function.update_of_ne other ..
    obtain ⟨links, entries, inserted, after, member⟩ := aimed.insert unlisted
    exact ⟨_, entries, inserted, after, .refused rfl member⟩
  · cases type : (state.timer first).type with
    | osTimerOnce =>
        refine ⟨(accept first state).setRunning first false, rest, ?_,
          ordered.congr rfl fun _ _ => rfl, .once type rfl rfl⟩
        rw [afterPost, if_neg nofun]
        exact if_neg (by rw [type]; exact nofun)
    | osTimerPeriodic =>
        have aimed : Ordered (rearm ticks first (accept first state)) rest :=
          ordered.change unlisted rfl fun _ other => Function.update_of_ne other ..
        obtain ⟨links, entries, inserted, after, member⟩ := aimed.insert unlisted
        refine ⟨_, entries, ?_, after, .again type rfl member⟩
        rw [afterPost, if_neg nofun]
        exact (if_pos type).trans inserted

end Lists

section Loop

variable {state final : TimerState} {ticks : Word}

/-- What each turn of the loop preserves holds at its end, where no timer is expired or the queue was
full. -/
theorem tickLoop_invariant {motive : TimerState → Prop}
    (preserved : ∀ state expired osStatus next, motive state → expiredTimer ticks state = some expired →
      (osStatus = .osErrorResource ∨ osStatus = .osOK) →
      afterPost ticks expired osStatus (popExpired state) = some next →
      motive next ∧ (osStatus = .osErrorResource → next.refused))
    {outcomes : List OsStatus} (initially : motive state)
    (performed : tickLoop ticks outcomes state = some final) :
    motive final ∧ (expiredTimer ticks final = none ∨ final.refused) := by
  induction outcomes generalizing state with
  | nil =>
      rw [tickLoop, Option.ite_none_left_eq_some] at performed
      obtain ⟨none_, same⟩ := performed
      obtain rfl := Option.some_inj.mp same
      exact ⟨initially, Or.inl (Option.not_isSome_iff_eq_none.mp none_)⟩
  | cons osStatus rest ih =>
      obtain ⟨expired, isExpired, performed⟩ := Option.bind_eq_some_iff.mp performed
      split at performed
      · rename_i full
        rw [Option.ite_none_right_eq_some] at performed
        have kept := preserved _ _ _ _ initially isExpired (Or.inl full) performed.2
        exact ⟨kept.1, Or.inr (kept.2 full)⟩
      · rw [Option.ite_none_right_eq_some] at performed
        obtain ⟨accepted, performed⟩ := performed
        obtain ⟨next, posted, performed⟩ := Option.bind_eq_some_iff.mp performed
        exact ih (preserved _ _ _ _ initially isExpired (Or.inr accepted) posted).1 performed

end Loop

section Steps

variable {state next : TimerState} {entries rest : List Word} {timerId expired ticks : Word}

theorem Listed.of_ordered (listed : Listed state entries) {entriesAfter : List Word}
    (ordered : Ordered next entriesAfter)
    (running : ∀ other, other ∈ entriesAfter ↔ next.running other)
    (valid : ∀ other ∈ entriesAfter, (next.timer other).marker = (state.timer other).marker ∧
      other ∈ entries) : Listed next entriesAfter := by
  refine ⟨ordered, running, fun other member => ?_⟩
  obtain ⟨same, old⟩ := valid other member
  rw [timerValid_congr same]
  exact listed.valid other old

theorem Listed.post (listed : Listed state entries) (isExpired : expiredTimer ticks state = some expired)
    {osStatus : OsStatus} (expected : osStatus = .osErrorResource ∨ osStatus = .osOK)
    (posted : afterPost ticks expired osStatus (popExpired state) = some next) :
    (state.timer expired).target ≤ ticks ∧ ∃ rest entriesAfter, entries = expired :: rest ∧
      expired ∉ rest ∧ Posted ticks expired (popExpired state) next rest entriesAfter osStatus ∧
      Listed next entriesAfter := by
  obtain ⟨reached, rest, rfl, unlisted, popped⟩ := listed.toOrdered.expired isExpired
  obtain ⟨after, entriesAfter, same, ordered, becomes⟩ :=
    show ∃ after entriesAfter, afterPost ticks expired osStatus (popExpired state) = some after ∧
      Ordered after entriesAfter ∧ Posted ticks expired (popExpired state) after rest entriesAfter
        osStatus from popped.posted unlisted expected
  obtain rfl := Option.some_inj.mp (posted.symm.trans same)
  refine ⟨reached, rest, entriesAfter, rfl, unlisted, becomes, ?_⟩
  have wasRunning := listed.running
  cases becomes with
  | refused becomes member =>
      subst becomes
      refine listed.of_ordered ordered (fun other => ?_) fun other inside => ?_
      · rw [member, ← List.mem_cons]
        exact wasRunning other
      · refine ⟨?_, List.mem_cons.mpr ((member other).mp inside)⟩
        change ((refuse ticks expired (popExpired state)).timer other).marker = _
        by_cases isIt : other = expired
        · rw [isIt, refuse_self.1]
          rfl
        · rw [(refuse_of_ne isIt).1]
          rfl
  | again type becomes member =>
      subst becomes
      refine listed.of_ordered ordered (fun other => ?_) fun other inside => ?_
      · rw [member, ← List.mem_cons]
        exact wasRunning other
      · refine ⟨?_, List.mem_cons.mpr ((member other).mp inside)⟩
        change ((rearm ticks expired (accept expired (popExpired state))).timer other).marker = _
        by_cases isIt : other = expired
        · rw [isIt, rearm_self.1]
          rfl
        · rw [(rearm_of_ne isIt).1]
          rfl
  | once type becomes kept =>
      subst becomes kept
      refine listed.of_ordered ordered (fun other => ?_) fun other inside => ?_
      · change other ∈ entriesAfter ↔ Function.update state.running expired false other
        by_cases isIt : other = expired
        · rw [isIt, Function.update_self]
          exact iff_of_false unlisted Bool.false_ne_true
        · rw [Function.update_of_ne isIt, ← wasRunning other, List.mem_cons]
          exact (or_iff_right isIt).symm
      · exact ⟨rfl, List.mem_cons_of_mem _ inside⟩

theorem Posted.refuses {rest entriesAfter : List Word} {osStatus : OsStatus}
    (posted : Posted ticks expired state next rest entriesAfter osStatus)
    (full : osStatus = .osErrorResource) : next.refused := by
  cases posted with
  | refused becomes _ => exact becomes ▸ rfl
  | _ => cases full

theorem Listed.tick (listed : Listed state entries) {core : Nat} {outcomes : List OsStatus}
    (ticked : timerTick core outcomes state = some next) : ∃ entriesAfter, Listed next entriesAfter := by
  rw [timerTick, schedulerTickHook] at ticked
  by_cases isFirst : core = 0
  · rw [if_neg (not_not_intro isFirst), if_pos isFirst] at ticked
    refine (tickLoop_invariant (motive := fun state => ∃ entries, Listed state entries) ?_ ?_ ticked).1
    · rintro state expired osStatus next ⟨entries, listed⟩ isExpired expected posted
      obtain ⟨_, _, entriesAfter, _, _, becomes, after⟩ := listed.post isExpired expected posted
      exact ⟨⟨entriesAfter, after⟩, becomes.refuses⟩
    · exact ⟨entries, listed.of_ordered (listed.toOrdered.congr rfl fun _ _ => rfl) listed.running
        fun _ member => ⟨rfl, member⟩⟩
  · rw [if_pos isFirst, if_neg isFirst] at ticked
    obtain rfl := Option.some_inj.mp ticked
    exact ⟨entries, listed⟩

theorem Listed.start (listed : Listed state entries) (unlisted : timerId ∉ entries)
    (valid : timerValid timerId state = .osOK)
    (started : insertInOrder timerId (startedTimer timerId state ticks) = some next) :
    ∃ entriesAfter, Listed next entriesAfter := by
  have aimed : Ordered (startedTimer timerId state ticks) entries :=
    listed.toOrdered.change unlisted rfl fun _ different => timer_startedTimer_of_ne _ _ different _
  obtain ⟨links, entriesAfter, inserted, ordered, member⟩ := aimed.insert unlisted
  obtain rfl := Option.some_inj.mp (started.symm.trans inserted)
  refine ⟨entriesAfter, ordered, fun other => ?_, fun other inside => ?_⟩
  · rw [member]
    change _ ↔ Function.update state.running timerId true other
    by_cases isIt : other = timerId
    · rw [isIt, Function.update_self]
      exact iff_of_true (Or.inl rfl) rfl
    · rw [Function.update_of_ne isIt, ← listed.running other]
      exact or_iff_right isIt
  · by_cases isIt : other = timerId
    · subst isIt
      rw [← valid]
      apply timerValid_congr
      change ((startedTimer other state ticks).timer other).marker = _
      rw [timer_startedTimer_self]
    · rw [← listed.valid other (((member other).mp inside).resolve_left isIt)]
      apply timerValid_congr
      change ((startedTimer timerId state ticks).timer other).marker = _
      rw [timer_startedTimer_of_ne _ _ isIt]

theorem Listed.remove (listed : Listed state entries) (timerId : Word) :
    Listed (removeTimer timerId state) (entries.filter (· ≠ timerId)) := by
  have ring : (removeTimer timerId state).activeTimers.Represents
      fun _ => entries.filter (· ≠ timerId) := listRemove_represents listed.ring timerId
  refine ⟨⟨ring, listed.sorted.sublist List.filter_sublist⟩, fun other => ?_, fun other inside => ?_⟩
  · change _ ↔ Function.update state.running timerId false other
    rw [List.mem_filter]
    by_cases isIt : other = timerId
    · rw [isIt, Function.update_self]
      simp
    · rw [Function.update_of_ne isIt, ← listed.running other]
      simp [isIt]
  · exact listed.valid other (List.mem_filter.mp inside).1

theorem Listed.delete (listed : Listed state entries) (unlisted : timerId ∉ entries) :
    Listed (deleteTimer timerId state) entries := by
  have cleared : Listed (state.setTimer timerId fun timer => { timer with marker := 0 }) entries := by
    refine ⟨listed.toOrdered.change unlisted rfl fun _ different => ?_, listed.running, ?_⟩
    · exact TimerState.timer_setTimer_of_ne different
    intro other inside
    rw [← listed.valid other inside]
    apply timerValid_congr
    rw [TimerState.timer_setTimer_of_ne (ne_of_mem_of_not_mem inside unlisted)]
  exact ⟨cleared.toOrdered.congr rfl fun _ _ => rfl, cleared.running, cleared.valid⟩

end Steps

/-- The ring is well formed, in order of the targets, and holds each running timer once and no other;
`osTimerIsRunning` tells which timers these are. -/
structure WellListed (state : TimerState) : Prop where
  ring : ∃ entries, state.activeTimers.Represents (fun _ => entries) ∧ entries.Nodup ∧
    entries.Pairwise (fun earlier later => (state.timer earlier).target ≤ (state.timer later).target) ∧
    ∀ timerId, timerId ∈ entries ↔ state.running timerId
  isRunning : ∀ timerId, osTimerIsRunning timerId .thread state =
    if state.running timerId then 1 else 0

def StartsStopped (state : TimerState) : TimerAction → Prop
  | .start timerId ticks context => startStatus timerId context state ticks = .osOK →
      listIsLinked state.activeTimers (.node timerId) = false
  | _ => True

instance (state : TimerState) (action : TimerAction) : Decidable (StartsStopped state action) :=
  match action with
  | .start timerId ticks context =>
      inferInstanceAs (Decidable (startStatus timerId context state ticks = .osOK →
        listIsLinked state.activeTimers (.node timerId) = false))
  | .stop _ _ | .delete _ _ | .tick _ _ => inferInstanceAs (Decidable True)

section Runs

variable {state next : TimerState} {entries : List Word} {timerId : Word} {context : Context}

theorem Listed.unlisted (listed : Listed state entries)
    (unlinked : listIsLinked state.activeTimers (.node timerId) = false) : timerId ∉ entries := by
  rw [← listIsLinked_iff listed.ring, unlinked]
  exact Bool.false_ne_true

theorem Listed.wellListed (listed : Listed state entries) : WellListed state := by
  refine ⟨⟨entries, listed.ring, listed.toOrdered.nodup, listed.sorted, listed.running⟩, ?_⟩
  intro timerId
  have linked : listIsLinked state.activeTimers (.node timerId) ↔ state.running timerId := by
    rw [listIsLinked_iff listed.ring, listed.running]
  by_cases valid : timerStatus timerId .thread state = .osOK
  · rw [osTimerIsRunning, if_neg (not_not_intro valid)]
    exact if_congr linked rfl rfl
  · have stopped : ¬state.running timerId := by
      intro running
      exact valid (listed.valid timerId ((listed.running timerId).mpr running))
    rw [osTimerIsRunning, if_pos valid, if_neg stopped]

theorem Listed.step (listed : Listed state entries) {action : TimerAction}
    (stopped : StartsStopped state action) (moved : timerSystem.step state action = some next) :
    ∃ entriesAfter, Listed next entriesAfter := by
  cases action with
  | start timerId ticks context =>
      obtain ⟨⟨status, after⟩, started, rfl⟩ := Option.map_eq_some_iff.mp moved
      rw [osTimerStart] at started
      by_cases valid : startStatus timerId context state ticks = .osOK
      · rw [if_neg (not_not_intro valid)] at started
        obtain ⟨inserted, isInserted, same⟩ := Option.map_eq_some_iff.mp started
        obtain ⟨rfl, rfl⟩ := Prod.mk.inj same
        refine listed.start (listed.unlisted (stopped valid)) ?_ isInserted
        exact timerValid_of_timerStatus (timerStatus_of_startStatus valid)
      · rw [if_pos valid] at started
        obtain ⟨rfl, rfl⟩ := Prod.mk.inj (Option.some_inj.mp started)
        exact ⟨entries, listed⟩
  | stop timerId context =>
      obtain rfl := Option.some_inj.mp moved
      unfold osTimerStop
      split
      · exact ⟨entries, listed⟩
      · split
        · exact ⟨entries, listed⟩
        · exact ⟨_, listed.remove timerId⟩
  | delete timerId context =>
      obtain rfl := Option.some_inj.mp moved
      unfold osTimerDelete
      split
      · exact ⟨entries, listed⟩
      · split
        · exact ⟨_, (listed.remove timerId).delete (by simp)⟩
        · rename_i unlinked
          exact ⟨_, listed.delete (listed.unlisted (Bool.eq_false_of_not_eq_true unlinked))⟩
  | tick core outcomes => exact listed.tick moved

theorem listed_of_guarded (reached : timerSystem.Guarded StartsStopped state) :
    ∃ entries, Listed state entries := by
  refine reached.invariant (motive := fun state => ∃ entries, Listed state entries) ?_ ?_
  · intro state begins
    obtain ⟨links, _, _, running, _⟩ := begins
    refine ⟨[], ⟨?_, List.Pairwise.nil⟩, ?_, nofun⟩
    · rw [links]
      exact Links.empty_represents
    · intro timerId
      rw [running]
      exact iff_of_false List.not_mem_nil Bool.false_ne_true
  · rintro state action next ⟨entries, listed⟩ stopped moved
    exact listed.step stopped moved

/-- As long as no timer is started that is in the list, the list is well formed and in order, and holds
the running timers. -/
theorem wellListed_of_guarded (reached : timerSystem.Guarded StartsStopped state) :
    WellListed state := by
  obtain ⟨entries, listed⟩ := listed_of_guarded reached
  exact listed.wellListed

theorem not_represents_of_restart (reached : timerSystem.Guarded StartsStopped state)
    {ticks : Word} (valid : startStatus timerId context state ticks = .osOK)
    (linked : listIsLinked state.activeTimers (.node timerId))
    (moved : timerSystem.step state (.start timerId ticks context) = some next) :
    ¬∃ entries, next.activeTimers.Represents fun _ => entries := by
  obtain ⟨entries, listed⟩ := listed_of_guarded reached
  obtain ⟨⟨status, after⟩, started, rfl⟩ := Option.map_eq_some_iff.mp moved
  rw [osTimerStart, if_neg (not_not_intro valid)] at started
  obtain ⟨inserted, isInserted, same⟩ := Option.map_eq_some_iff.mp started
  obtain ⟨rfl, rfl⟩ := Prod.mk.inj same
  obtain ⟨entry, found, rfl⟩ := Option.map_eq_some_iff.mp isInserted
  have different : entry ≠ .node timerId := by
    rintro rfl
    have stopped := stops_of_listForEachEntry found
    have earlier := of_decide_eq_true stopped
    bv_omega
  rintro ⟨others, ring⟩
  exact listInsertBefore_breaks listed.ring (of_decide_eq_true linked).1 different ⟨_, ring⟩

end Runs

def twoTimers : TimerState where
  timer timerId :=
    { marker := rtosTimerMarker
      attrBits := 0
      type := if timerId = 0x2000 then .osTimerPeriodic else .osTimerOnce
      func := 0x10000101
      argument := 0
      ticks := 0
      target := 0 }
  activeTimers := Links.empty
  now := 0
  released := []
  running _ := false
  due _ := 0
  deadline _ := 0
  posts := []
  refused := false

theorem initial_twoTimers : timerSystem.initial twoTimers := ⟨rfl, rfl, rfl, rfl, rfl, rfl⟩

theorem wellListed_of_guarded_ticks :
    ∃ state, state.posts.map TimerPost.timer = [0x1000] ∧ state.running 0x2000 ∧
      ¬state.running 0x1000 ∧ WellListed state := by
  obtain ⟨state, reached, posts, periodic, once⟩ := System.exists_of_run StartsStopped
    initial_twoTimers
    [.start 0x1000 2 .thread, .start 0x2000 2 .thread, .tick 0 [],
      .tick 0 [.osOK, .osErrorResource]]
    (fun state => state.posts.map TimerPost.timer = [0x1000] ∧ state.running 0x2000 ∧
      ¬state.running 0x1000) (by decide)
  exact ⟨state, posts, periodic, once, wellListed_of_guarded reached⟩

theorem not_wellListed : ¬∀ state, timerSystem.Reachable state → WellListed state := by
  intro always
  obtain ⟨state, reached, started, linked, again⟩ := System.exists_of_run StartsStopped
    initial_twoTimers [.start 0x1000 2 .thread]
    (fun state => startStatus 0x1000 .thread state 5 = .osOK ∧
      listIsLinked state.activeTimers (.node 0x1000) ∧
      (timerSystem.step state (.start 0x1000 5 .thread)).isSome) (by decide)
  obtain ⟨next, moved⟩ := Option.isSome_iff_exists.mp again
  have broken := not_represents_of_restart reached started linked moved
  obtain ⟨entries, ring, _⟩ := (always next (reached.reachable.step moved)).ring
  exact broken ⟨entries, ring⟩

end PicoToolkit
