import PicoToolkit.Scheduler.WellPlaced
import PicoToolkit.Timer.View

/-!
The timer list is in order of expiry, with equal entries in the order in which they joined it, and
the tick handler finds the earliest expiry in the cache.
-/

namespace PicoToolkit

open Ring Transition

variable {cores : Nat} [NeZero cores]

namespace TimerView

def Before (view : TimerView) (arrived : Word → Nat) (earlier later : Word) : Prop :=
  view.expires earlier < view.expires later ∨
    view.expires earlier = view.expires later ∧ arrived earlier < arrived later

structure Ordered (view : TimerView) (clock : Nat) (arrived : Word → Nat) : Prop where
  sorted : view.entries.Pairwise (view.Before arrived)
  past : ∀ task ∈ view.entries, arrived task < clock
  cached : view.Cached

variable {view next : TimerView} {clock : Nat} {arrived arrivedNext : Word → Nat}

theorem Ordered.shrinks (ordered : view.Ordered clock arrived) (shrinks : view.Shrinks next)
    (same : ∀ task ∈ next.entries, arrivedNext task = arrived task) :
    next.Ordered (clock + 1) arrivedNext := by
  constructor
  · refine (ordered.sorted.sublist shrinks.entries).imp_of_mem ?_
    intro earlier later inEarlier inLater before
    rw [Before, shrinks.expires earlier inEarlier, shrinks.expires later inLater,
      same earlier inEarlier, same later inLater]
    exact before
  · intro task member
    rw [same task member]
    have past := ordered.past task (shrinks.entries.subset member)
    omega
  · exact shrinks.cached ordered.cached

theorem mem_push {task other delay : Word} :
    other ∈ (view.push task delay).entries ↔ other = task ∨ other ∈ view.entries := by
  have member : other ∈ (view.push task delay).entries ↔
      other = task ∨ other ∈ view.entries.filter (· ≠ task) := mem_insertEntry
  rw [member, List.mem_filter]
  by_cases same : other = task
  · simp [same]
  · simp [same]

theorem Ordered.push (ordered : view.Ordered clock arrived) {task delay : Word}
    (absent : task ∉ view.entries) (isLast : arrivedNext task = clock)
    (same : ∀ other ∈ view.entries, arrivedNext other = arrived other) :
    (view.push task delay).Ordered (clock + 1) arrivedNext := by
  have expires : ∀ other ∈ view.entries,
      (view.push task delay).expires other = view.expires other := by
    intro other member
    exact Function.update_of_ne (ne_of_mem_of_not_mem member absent) ..
  have sorted : view.entries.Pairwise ((view.push task delay).Before arrivedNext) := by
    refine ordered.sorted.imp_of_mem ?_
    intro earlier later inEarlier inLater before
    rw [Before, expires earlier inEarlier, expires later inLater, same earlier inEarlier,
      same later inLater]
    exact before
  have entries : (view.push task delay).entries =
      insertEntry (view.entries.find? fun entry =>
        decide ((view.push task delay).expires entry > (view.push task delay).expires task))
        task view.entries := by
    have kept : view.entries.filter (· ≠ task) = view.entries := filter_absent absent
    simp only [TimerView.push, TimerView.insert, refresh, kept]
  constructor
  · rw [entries]
    apply pairwise_insertEntry sorted
    · intro other member notLater
      have order : (view.push task delay).expires other ≤ (view.push task delay).expires task := by
        simpa using notLater
      have past := ordered.past other member
      rcases Nat.lt_or_eq_of_le (BitVec.le_def.mp order) with less | equal
      · exact Or.inl (BitVec.lt_def.mpr less)
      · refine Or.inr ⟨BitVec.eq_of_toNat_eq equal, ?_⟩
        rw [same other member, isLast]
        exact past
    · intro other _ later
      exact Or.inl (by simpa using later)
    · intro earlier _ later _ before isLater
      have less : (view.push task delay).expires task < (view.push task delay).expires earlier := by
        simpa using isLater
      have further : (view.push task delay).expires task < (view.push task delay).expires later := by
        rcases before with order | ⟨equal, _⟩
        · exact BitVec.lt_trans less order
        · rwa [← equal]
      simpa using further
  · intro other member
    rcases mem_push.mp member with rfl | old
    · omega
    · rw [same other old]
      have past := ordered.past other old
      omega
  · rfl

end TimerView

/-- The steps of a run are numbered; of each task is noted which step last put it into the timer
list. -/
def arrivals (cores : Nat) [NeZero cores] :
    System (State Links cores × Nat × (Word → Nat)) (Action cores) :=
  (scheduler cores).record (0, fun _ => 0) fun state _ next (clock, arrived) =>
    (clock + 1, fun task =>
      if task ∈ next.timerList ∧ task ∉ state.timerList then clock else arrived task)

theorem timer_transition {state next : State Links cores} {action : Action cores}
    (reached : (scheduler cores).Reachable state)
    (moved : (scheduler cores).step state action = some next) :
    match armed state action with
    | none => state.timerView.Shrinks next.timerView
    | some (task, delay) => task ∉ state.timerList ∧
        next.timerView = state.timerView.push task delay := by
  obtain ⟨follows, abstractly⟩ := (scheduler_simulation cores).reachable reached
  have placed := placed_of_reachable abstractly
  have follow := ((scheduler_simulation cores).step _ _ _ follows abstractly moved).2
  have stepped := timer_step placed follow
  cases action with
  | _ => exact stepped

theorem ordered_of_arrivals {recorded : State Links cores × Nat × (Word → Nat)}
    (reached : (arrivals cores).Reachable recorded) :
    (scheduler cores).Reachable recorded.1 ∧
      recorded.1.timerView.Ordered recorded.2.1 recorded.2.2 := by
  refine reached.invariant (motive := fun recorded => (scheduler cores).Reachable recorded.1 ∧
    recorded.1.timerView.Ordered recorded.2.1 recorded.2.2) ?_ ?_
  · rintro ⟨state, history⟩ ⟨begins, rfl⟩
    refine ⟨.start begins, ?_⟩
    obtain ⟨memory, sliceDuration, rfl⟩ := begins
    have empty : schedListEntries (Links.empty : Links Unit Word) () = [] :=
      congrFun (entries_eq Links.empty_represents) ()
    have entries : ({ schedulerInit Links.empty Links.empty Links.empty with
        memory := memory, sliceDuration := sliceDuration } : State Links cores).timerView.entries =
        [] := empty
    constructor
    · rw [entries]
      exact List.Pairwise.nil
    · rw [entries]
      simp
    · rw [TimerView.Cached, TimerView.first, entries]
      rfl
  · rintro ⟨state, clock, arrived⟩ action ⟨next, history⟩ ⟨before, ordered⟩ moved
    obtain ⟨after, first, same⟩ := Option.map_eq_some_iff.mp moved
    obtain ⟨rfl, rfl⟩ := Prod.mk.inj same
    refine ⟨before.step first, ?_⟩
    have stepped := timer_transition before first
    split at stepped
    · refine ordered.shrinks stepped fun task member => if_neg fun both => both.2 ?_
      exact stepped.entries.subset member
    · rename_i task delay _
      obtain ⟨absent, pushed⟩ := stepped
      have entries : ∀ other, other ∈ after.timerList ↔ other = task ∨ other ∈ state.timerList := by
        intro other
        have member := @TimerView.mem_push state.timerView task other delay
        rw [← pushed] at member
        exact member
      rw [pushed]
      refine ordered.push absent (if_pos ⟨(entries task).mpr (Or.inl rfl), absent⟩) ?_
      exact fun other member => if_neg fun both => both.2 member

/-- The timer list is well formed, in order and cached, and holds sleeping and waiting tasks only. -/
structure TimersInOrder (state : State Links cores) (arrived : Word → Nat) : Prop where
  ring : state.timers.Represents fun _ => state.timerList
  once : state.timerList.Nodup
  sorted : state.timerList.Pairwise fun earlier later =>
    (state.task earlier).timerExpires < (state.task later).timerExpires ∨
      (state.task earlier).timerExpires = (state.task later).timerExpires ∧
        arrived earlier < arrived later
  cached : state.timerExpires =
    match state.timerList with
    | [] => BitVec.ofNat 32 uint32Max
    | first :: _ => (state.task first).timerExpires
  idle : ∀ task ∈ state.timerList,
    (state.task task).state = .blocked ∨ (state.task task).state = .suspended

/-- In every reachable state the timers are in order. -/
theorem timersInOrder_of_arrivals {recorded : State Links cores × Nat × (Word → Nat)}
    (reached : (arrivals cores).Reachable recorded) :
    TimersInOrder recorded.1 recorded.2.2 := by
  obtain ⟨plainly, ordered⟩ := ordered_of_arrivals reached
  have wellPlaced := wellPlaced_of_reachable plainly
  obtain ⟨_, abstractly⟩ := (scheduler_simulation cores).reachable plainly
  have placed := placed_of_reachable abstractly
  refine ⟨wellPlaced.timers, wellPlaced.timers.nodup (), ordered.sorted, ordered.cached, ?_⟩
  intro task timed
  exact (placed task).timed timed

theorem timersInOrder_of_arrivals_sleeping :
    ∃ recorded, (arrivals 1).Reachable recorded ∧ recorded.1.timerList = [0x3000, 0x2000] ∧
      TimersInOrder recorded.1 recorded.2.2 := by
  have begins : (arrivals 1).initial (bootState 1, 0, fun _ => 0) := ⟨initial_bootState 1, rfl⟩
  obtain ⟨recorded, reached, sleeping⟩ := System.exists_of_run (fun _ _ => True) begins
    (List.flatten [[.create 0 0x1000 { flags := schedulerPrimordialTask, priority := 32 },
        .create 0 0x2000 { priority := 31 }, .create 0 0x3000 { priority := 31 }, .start 0],
      switchPass, [.sleep 0 9], switchPass, [.sleep 0 5], switchPass])
    (fun recorded : State Links 1 × Nat × (Word → Nat) =>
      recorded.1.timerList = [0x3000, 0x2000]) (by decide)
  exact ⟨recorded, reached, sleeping, timersInOrder_of_arrivals reached⟩

end PicoToolkit
