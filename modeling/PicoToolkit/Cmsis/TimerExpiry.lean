import PicoToolkit.Cmsis.TimerOrder

/-!
Application timers and time: the targets are 32-bit sums, compared by value; they stand for moments, which
are not bounded.
-/

namespace PicoToolkit

open Ring Transition LinkFields

/-- The counter has wrapped around as often as the sum that gave the target, or it has wrapped around more
often and reached the target again. -/
def InStep (moment now : Nat) : Prop :=
  moment / 2 ^ 32 = now / 2 ^ 32 ∨
    moment / 2 ^ 32 < now / 2 ^ 32 ∧ moment % 2 ^ 32 ≤ now % 2 ^ 32

instance (moment now : Nat) : Decidable (InStep moment now) := inferInstanceAs (Decidable (_ ∨ _))

theorem InStep.le_iff {moment now : Nat} (inStep : InStep moment now) :
    BitVec.ofNat 32 moment ≤ BitVec.ofNat 32 now ↔ moment ≤ now := by
  rw [InStep] at inStep
  rw [BitVec.le_def, BitVec.toNat_ofNat, BitVec.toNat_ofNat]
  omega

/-- No message has been posted before it was due, and no running timer is due unless the queue was full. -/
structure OnTime (state : TimerState) : Prop where
  notEarly : ∀ post ∈ state.posts, post.due ≤ post.moment
  notSkipped : state.refused = false → ∀ timerId, state.running timerId →
    state.now < state.due timerId

/-- A timer is in step with the counter at the next tick, and no period that begins then takes the counter
past its end. -/
def StaysInStep (state : TimerState) (timerId : Word) : Prop :=
  InStep (state.deadline timerId) (state.now + 1) ∧
    ((state.timer timerId).type = .osTimerPeriodic → state.deadline timerId ≤ state.now + 1 →
      (state.now + 1) % 2 ^ 32 + (state.timer timerId).ticks.toNat < 2 ^ 32)

instance (state : TimerState) : DecidablePred (StaysInStep state) := fun _ =>
  inferInstanceAs (Decidable (_ ∧ _))

/-- When the hook looks at the timers, each is in step; no timer is started that is in the list. -/
def KeepsInStep (state : TimerState) : TimerAction → Prop
  | .tick core _ => core = 0 → ∀ timerId ∈ schedListEntries state.activeTimers (),
      StaysInStep state timerId
  | action => StartsStopped state action

instance (state : TimerState) (action : TimerAction) : Decidable (KeepsInStep state action) :=
  match action with
  | .tick _ _ =>
      have _ := List.decidableBAll (StaysInStep state) (schedListEntries state.activeTimers ())
      inferInstanceAs (Decidable (_ → _))
  | .start timerId ticks context =>
      inferInstanceAs (Decidable (StartsStopped state (.start timerId ticks context)))
  | .stop _ _ | .delete _ _ => inferInstanceAs (Decidable True)

/-- The target of a timer stands for a moment, from which its message is due unless it has been refused
since. -/
structure Aimed (now : Nat) (timer : RtosTimer) (due deadline : Nat) : Prop where
  target : timer.target = BitVec.ofNat 32 deadline
  positive : timer.ticks ≠ 0
  aimed : due = deadline ∨ due ≤ deadline ∧ deadline ≤ now

structure AimedInStep (now : Nat) (timer : RtosTimer) (due deadline : Nat) : Prop
    extends Aimed now timer due deadline where
  inStep : InStep deadline now
  fits : timer.type = .osTimerPeriodic → deadline ≤ now → now % 2 ^ 32 + timer.ticks.toNat < 2 ^ 32

structure Timed (state : TimerState) : Prop where
  listed : ∃ entries, Listed state entries
  aimed : ∀ timerId, state.running timerId →
    Aimed state.now (state.timer timerId) (state.due timerId) (state.deadline timerId)
  onTime : OnTime state

section Entries

variable {now due deadline : Nat} {timer : RtosTimer}

theorem ofNat_add_toNat (now : Nat) (ticks : Word) :
    BitVec.ofNat 32 now + ticks = BitVec.ofNat 32 (now + ticks.toNat) := by
  rw [BitVec.ofNat_add, BitVec.ofNat_toNat, BitVec.setWidth_eq]

theorem Aimed.later {later : Nat} (aimed : Aimed now timer due deadline) (order : now ≤ later) :
    Aimed later timer due deadline := by
  refine ⟨aimed.target, aimed.positive, ?_⟩
  rcases aimed.aimed with same | ⟨less, past⟩
  · exact Or.inl same
  · exact Or.inr ⟨less, Nat.le_trans past order⟩

theorem Aimed.due_le (aimed : Aimed now timer due deadline) : due ≤ deadline := by
  rcases aimed.aimed with same | ⟨less, _⟩
  · exact Nat.le_of_eq same
  · exact less

theorem AimedInStep.not_due (aimed : AimedInStep now timer due deadline)
    (early : BitVec.ofNat 32 now < timer.target) : now < due := by
  have notReached : ¬deadline ≤ now := by
    rw [← aimed.inStep.le_iff, ← aimed.target]
    exact BitVec.not_le.mpr early
  rcases aimed.aimed with same | ⟨_, past⟩
  · omega
  · exact (notReached past).elim

theorem AimedInStep.refuse (aimed : AimedInStep now timer due deadline) (reached : deadline ≤ now) :
    AimedInStep now { timer with target := BitVec.ofNat 32 now + 0 } due now := by
  have order := Nat.le_trans aimed.due_le reached
  refine ⟨⟨BitVec.add_zero _, aimed.positive, Or.inr ⟨order, Nat.le_refl _⟩⟩, Or.inl rfl, ?_⟩
  exact fun periodic _ => aimed.fits periodic reached

theorem AimedInStep.rearm (aimed : AimedInStep now timer due deadline) (reached : deadline ≤ now)
    (periodic : timer.type = .osTimerPeriodic) :
    AimedInStep now { timer with target := BitVec.ofNat 32 now + timer.ticks }
      (now + timer.ticks.toNat) (now + timer.ticks.toNat) := by
  have fits := aimed.fits periodic reached
  have some_ : timer.ticks.toNat ≠ 0 := fun none_ => aimed.positive (BitVec.eq_of_toNat_eq none_)
  refine ⟨⟨ofNat_add_toNat now timer.ticks, aimed.positive, Or.inl rfl⟩, Or.inl ?_, fun _ again => ?_⟩
  · omega
  · omega

end Entries

section Steps

variable {state next : TimerState} {entries : List Word} {timerId expired ticks : Word} {now : Nat}

def TimerState.InStep (state : TimerState) (timerId : Word) : Prop :=
  AimedInStep state.now (state.timer timerId) (state.due timerId) (state.deadline timerId)

theorem inStep_refuse {other : Word} (own : state.InStep expired)
    (reached : state.deadline expired ≤ state.now) (others : other ≠ expired → state.InStep other) :
    (refuse state.tickCount expired state).InStep other := by
  rw [TimerState.InStep]
  by_cases isIt : other = expired
  · obtain ⟨timer, due, deadline⟩ := @refuse_self state state.tickCount expired
    rw [isIt, timer, due, deadline]
    exact AimedInStep.refuse own reached
  · obtain ⟨timer, due, deadline⟩ := @refuse_of_ne state state.tickCount _ _ isIt
    rw [timer, due, deadline]
    exact others isIt

theorem inStep_rearm {other : Word} (own : state.InStep expired)
    (reached : state.deadline expired ≤ state.now)
    (periodic : (state.timer expired).type = .osTimerPeriodic)
    (others : other ≠ expired → state.InStep other) :
    (rearm state.tickCount expired state).InStep other := by
  rw [TimerState.InStep]
  by_cases isIt : other = expired
  · obtain ⟨timer, due, deadline⟩ := @rearm_self state state.tickCount expired
    rw [isIt, timer, due, deadline]
    exact AimedInStep.rearm own reached periodic
  · obtain ⟨timer, due, deadline⟩ := @rearm_of_ne state state.tickCount _ _ isIt
    rw [timer, due, deadline]
    exact others isIt

structure Ticking (state : TimerState) (entries : List Word) : Prop extends Listed state entries where
  inStep : ∀ timerId ∈ entries, state.InStep timerId
  notEarly : ∀ post ∈ state.posts, post.due ≤ post.moment

theorem Ticking.post (ticking : Ticking state entries)
    (isExpired : expiredTimer state.tickCount state = some expired)
    {osStatus : OsStatus} (expected : osStatus = .osErrorResource ∨ osStatus = .osOK)
    (posted : afterPost state.tickCount expired osStatus (popExpired state) = some next) :
    next.now = state.now ∧ (osStatus = .osErrorResource → next.refused) ∧
      ∃ entriesAfter, Ticking next entriesAfter := by
  obtain ⟨reached, rest, entriesAfter, rfl, unlisted, becomes, listed⟩ :=
    ticking.toListed.post isExpired expected posted
  have own := ticking.inStep expired (List.mem_cons_self ..)
  rw [own.target, TimerState.tickCount, own.inStep.le_iff] at reached
  have others : ∀ other ∈ rest, state.InStep other := fun other inside =>
    ticking.inStep other (List.mem_cons_of_mem _ inside)
  have onTime : ∀ post ∈ (accept expired state).posts, post.due ≤ post.moment := by
    intro post member
    rcases List.mem_append.mp member with old | isNew
    · exact ticking.notEarly post old
    · rw [List.mem_singleton.mp isNew]
      exact Nat.le_trans own.due_le reached
  have refuses := becomes.refuses
  cases becomes with
  | refused becomes member =>
      subst becomes
      refine ⟨rfl, refuses, entriesAfter, listed, fun other inside => ?_, ticking.notEarly⟩
      exact @inStep_refuse (popExpired state) _ _ own reached fun different =>
        others other (((member other).mp inside).resolve_left different)
  | again type becomes member =>
      subst becomes
      refine ⟨rfl, refuses, entriesAfter, listed, fun other inside => ?_, onTime⟩
      exact @inStep_rearm (accept expired (popExpired state)) _ _ own reached type fun different =>
        others other (((member other).mp inside).resolve_left different)
  | once type becomes kept =>
      subst becomes kept
      exact ⟨rfl, refuses, entriesAfter, listed, others, onTime⟩

theorem Timed.tick (timed : Timed state) {outcomes : List OsStatus}
    (keeps : KeepsInStep state (.tick 0 outcomes)) (ticked : timerTick 0 outcomes state = some next) :
    Timed next := by
  obtain ⟨entries, listed⟩ := timed.listed
  have isEntry : schedListEntries state.activeTimers () = entries := schedListEntries_eq listed.ring ()
  have begins : Ticking { state with now := state.now + 1, refused := false } entries := by
    refine ⟨listed.of_ordered (listed.toOrdered.congr rfl fun _ _ => rfl) listed.running
      fun _ member => ⟨rfl, member⟩, fun timerId member => ?_, timed.onTime.notEarly⟩
    obtain ⟨inStep, fits⟩ := keeps rfl timerId (isEntry ▸ member)
    have aimed := timed.aimed timerId ((listed.running timerId).mp member)
    exact ⟨aimed.later (Nat.le_succ _), inStep, fits⟩
  have performed : tickLoop (BitVec.ofNat 32 (state.now + 1)) outcomes
      { state with now := state.now + 1, refused := false } = some next := ticked
  obtain ⟨⟨isNow, entriesAfter, ticking⟩, ended⟩ := tickLoop_invariant
    (motive := fun turn => turn.now = state.now + 1 ∧ ∃ entries, Ticking turn entries) (by
      rintro turn expired osStatus after ⟨isNow, entries, ticking⟩ isExpired expected posted
      rw [← isNow] at isExpired posted
      obtain ⟨same, refuses, entriesAfter, later⟩ := ticking.post isExpired expected posted
      exact ⟨⟨same.trans isNow, entriesAfter, later⟩, refuses⟩) ⟨rfl, entries, begins⟩ performed
  have inStep : ∀ timerId, next.running timerId → next.InStep timerId := fun timerId running =>
    ticking.inStep timerId ((ticking.running timerId).mpr running)
  refine ⟨⟨entriesAfter, ticking.toListed⟩, fun timerId running => (inStep timerId running).toAimed,
    ticking.notEarly, fun accepted timerId running => ?_⟩
  rcases ended with none_ | full
  · rw [← isNow] at none_
    have member := (ticking.running timerId).mpr running
    exact (inStep timerId running).not_due (ticking.toOrdered.unexpired none_ member)
  · rw [accepted] at full
    cases full

theorem Timed.start (timed : Timed state) (positive : ticks ≠ 0)
    (listed : ∃ entries, Listed next entries)
    (started : insertInOrder timerId (startedTimer timerId state ticks) = some next) :
    Timed next := by
  obtain ⟨entry, _, rfl⟩ := Option.map_eq_some_iff.mp started
  obtain ⟨due, deadline, _⟩ := history_startedTimer_self timerId state ticks
  refine ⟨listed, fun other running => ?_, timed.onTime.notEarly, fun accepted other running => ?_⟩
  · change Aimed state.now ((startedTimer timerId state ticks).timer other)
      ((startedTimer timerId state ticks).due other) ((startedTimer timerId state ticks).deadline other)
    by_cases isIt : other = timerId
    · rw [isIt, timer_startedTimer_self, due, deadline]
      exact ⟨ofNat_add_toNat state.now ticks, positive, Or.inl rfl⟩
    · obtain ⟨dueOther, deadlineOther, same⟩ := history_startedTimer_of_ne timerId state isIt ticks
      rw [timer_startedTimer_of_ne _ _ isIt, dueOther, deadlineOther]
      exact timed.aimed other (same.symm.trans running)
  · change state.now < (startedTimer timerId state ticks).due other
    by_cases isIt : other = timerId
    · have some_ : ticks.toNat ≠ 0 := fun none_ => positive (BitVec.eq_of_toNat_eq none_)
      rw [isIt, due]
      omega
    · obtain ⟨dueOther, _, same⟩ := history_startedTimer_of_ne timerId state isIt ticks
      rw [dueOther]
      exact timed.onTime.notSkipped accepted other (same.symm.trans running)

theorem Timed.fewer (timed : Timed state) (listed : ∃ entries, Listed next entries)
    (running : ∀ timerId, next.running timerId → state.running timerId ∧
      (next.timer timerId).target = (state.timer timerId).target ∧
      (next.timer timerId).ticks = (state.timer timerId).ticks)
    (history : next.now = state.now ∧ next.due = state.due ∧ next.deadline = state.deadline ∧
      next.posts = state.posts ∧ next.refused = state.refused) : Timed next := by
  obtain ⟨now, due, deadline, posts, refused⟩ := history
  refine ⟨listed, fun timerId runs => ?_, posts ▸ timed.onTime.notEarly, fun accepted timerId runs => ?_⟩
  · obtain ⟨ran, target, ticks⟩ := running timerId runs
    have aimed := timed.aimed timerId ran
    rw [now, due, deadline]
    exact ⟨target.trans aimed.target, ticks ▸ aimed.positive, aimed.aimed⟩
  · rw [now, due]
    exact timed.onTime.notSkipped (refused ▸ accepted) timerId (running timerId runs).1

theorem Timed.step (timed : Timed state) {action : TimerAction} (keeps : KeepsInStep state action)
    (moved : timerSystem.step state action = some next) : Timed next := by
  obtain ⟨entries, listed⟩ := timed.listed
  have stopped : StartsStopped state action := by
    cases action with
    | tick core outcomes => trivial
    | _ => exact keeps
  have listedNext := listed.step stopped moved
  cases action with
  | start timerId ticks context =>
      obtain ⟨⟨status, after⟩, started, rfl⟩ := Option.map_eq_some_iff.mp moved
      rw [osTimerStart] at started
      split at started
      · obtain ⟨rfl, rfl⟩ := Prod.mk.inj (Option.some_inj.mp started)
        exact timed
      · rename_i valid
        obtain ⟨inserted, isInserted, same⟩ := Option.map_eq_some_iff.mp started
        obtain ⟨rfl, rfl⟩ := Prod.mk.inj same
        refine timed.start ?_ listedNext isInserted
        rintro rfl
        exact valid (by simp [startStatus])
  | stop timerId context =>
      have removed := @running_of_removeTimer timerId state
      obtain rfl := Option.some_inj.mp moved
      revert listedNext
      unfold osTimerStop
      split
      · exact fun _ => timed
      · split
        · exact fun _ => timed
        · intro listedNext
          exact timed.fewer listedNext (fun other running => ⟨removed running, rfl, rfl⟩)
            ⟨rfl, rfl, rfl, rfl, rfl⟩
  | delete timerId context =>
      have removed := @running_of_removeTimer timerId state
      obtain rfl := Option.some_inj.mp moved
      revert listedNext
      unfold osTimerDelete
      split
      · exact fun _ => timed
      · split
        · intro listedNext
          refine timed.fewer listedNext (fun other running => ⟨removed running, ?_⟩)
            ⟨rfl, rfl, rfl, rfl, rfl⟩
          exact timer_deleteTimer timerId (removeTimer timerId state) other
        · intro listedNext
          refine timed.fewer listedNext (fun other running => ⟨running, ?_⟩)
            ⟨rfl, rfl, rfl, rfl, rfl⟩
          exact timer_deleteTimer timerId state other
  | tick core outcomes =>
      by_cases isFirst : core = 0
      · subst isFirst
        exact timed.tick keeps moved
      · have same : timerTick core outcomes state = some state := by
          rw [timerTick, schedulerTickHook, if_pos isFirst, if_neg isFirst]
        obtain rfl := Option.some_inj.mp (same.symm.trans moved)
        exact timed

end Steps

section Runs

variable {state : TimerState}

/-- As long as the targets keep in step with the counter, no timer is early and none is skipped. -/
theorem onTime_of_guarded (reached : timerSystem.Guarded KeepsInStep state) : OnTime state := by
  have timed : Timed state := by
    refine reached.invariant (motive := Timed) ?_ fun _ _ _ timed keeps moved => timed.step keeps moved
    intro state begins
    have listed := listed_of_guarded (.start begins)
    obtain ⟨_, _, _, running, posts, _⟩ := begins
    refine ⟨listed, fun timerId runs => ?_, ?_, fun _ timerId runs => ?_⟩
    · rw [running] at runs
      cases runs
    · rw [posts]
      exact nofun
    · rw [running] at runs
      cases runs
  exact timed.onTime

theorem onTime_of_guarded_ticks :
    ∃ state, state.posts = [⟨0x2000, 1, 1⟩, ⟨0x1000, 2, 2⟩, ⟨0x2000, 2, 2⟩] ∧ OnTime state := by
  obtain ⟨state, reached, posts⟩ := System.exists_of_run KeepsInStep initial_twoTimers
    [.start 0x1000 2 .thread, .start 0x2000 1 .thread, .tick 0 [.osOK], .tick 0 [.osOK, .osOK]]
    (fun state => state.posts = [⟨0x2000, 1, 1⟩, ⟨0x1000, 2, 2⟩, ⟨0x2000, 2, 2⟩])
    (by decide)
  exact ⟨state, posts, onTime_of_guarded reached⟩

theorem timerTick_nil {state : TimerState} (none_ : state.activeTimers = Links.empty) :
    timerTick 0 [] state = some { state with now := state.now + 1, refused := false } := by
  have notExpired : ∀ ticks, expiredTimer ticks { state with now := state.now + 1, refused := false } =
      none := by
    intro ticks
    rw [expiredTimer, none_]
    rfl
  rw [timerTick, if_pos rfl, schedulerTickHook, if_neg (fun different => different rfl), tickLoop,
    notExpired]
  rfl

def twoTimersAt (now : Nat) : TimerState :=
  { twoTimers with now := now }

theorem reachable_twoTimersAt (now : Nat) :
    timerSystem.Guarded StartsStopped (twoTimersAt now) := by
  induction now with
  | zero => exact .start initial_twoTimers
  | succ now ih =>
      have ticked := @timerTick_nil (twoTimersAt now) rfl
      exact .step ih (show StartsStopped _ (.tick 0 []) from trivial) ticked

theorem early_posted : ∃ state, timerSystem.Guarded StartsStopped state ∧
    ∃ post ∈ state.posts, post.moment < post.due := by
  have found : ((timerSystem.run StartsStopped (twoTimersAt 0xfffffff0)
      [.start 0x1000 100 .thread, .tick 0 [.osOK]]).any fun final =>
        decide (final.posts = [⟨0x1000, 0xfffffff1, 0x100000054⟩])) = true := by decide
  obtain ⟨final, performed, posts⟩ := (Option.any_eq_true _ _).mp found
  have reached := System.run_guarded (reachable_twoTimersAt 0xfffffff0) performed
  have isOnly : final.posts = [⟨0x1000, 0xfffffff1, 0x100000054⟩] := of_decide_eq_true posts
  have member : (⟨0x1000, 0xfffffff1, 0x100000054⟩ : TimerPost) ∈ final.posts := by
    rw [isOnly]
    exact List.mem_singleton_self _
  have order : (0xfffffff1 : Nat) < 0x100000054 := by omega
  exact ⟨final, reached, ⟨0x1000, 0xfffffff1, 0x100000054⟩, member, order⟩

theorem overdue_skipped : ∃ state, timerSystem.Guarded StartsStopped state ∧ state.refused = false ∧
    ∃ timerId, state.running timerId ∧ state.due timerId ≤ state.now := by
  have found : ((timerSystem.run StartsStopped (twoTimersAt 0xfffffffe)
      [.start 0x1000 1 .thread, .tick 0 [.osErrorResource], .tick 0 []]).any fun final =>
        decide (final.refused = false ∧ final.running 0x1000 ∧ final.due 0x1000 ≤ final.now)) = true := by
    decide
  obtain ⟨final, performed, skipped⟩ := (Option.any_eq_true _ _).mp found
  obtain ⟨accepted, running, overdue⟩ := of_decide_eq_true skipped
  have reached := System.run_guarded (reachable_twoTimersAt 0xfffffffe) performed
  exact ⟨final, reached, accepted, 0x1000, running, overdue⟩

theorem early_and_skipped :
    (∃ state, timerSystem.Guarded StartsStopped state ∧ ∃ post ∈ state.posts, post.moment < post.due) ∧
      ∃ state, timerSystem.Guarded StartsStopped state ∧ state.refused = false ∧
        ∃ timerId, state.running timerId ∧ state.due timerId ≤ state.now :=
  ⟨early_posted, overdue_skipped⟩

end Runs

end PicoToolkit
