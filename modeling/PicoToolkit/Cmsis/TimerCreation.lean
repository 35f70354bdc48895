import PicoToolkit.Cmsis.Creation
import PicoToolkit.Cmsis.Timers
import PicoToolkit.Library.Observation

/-!
The creation of timers in memory that has held anything, and what follows from it: a timer that has never
been started hides its ticks and its target, which a start sets.
-/

namespace PicoToolkit.Creation

open Ring Observation

structure TimerMemory where
  timer : RtosTimer
  name : NameField
  next : Node Unit Word
  prev : Node Unit Word

structure NamedTimers where
  state : TimerState
  name : NameField

def sizeofRtosTimer : Word := 76

/-- What `osTimerNew` stores, in memory with these contents; nothing to `ticks` and `target`. -/
def timerInit (state : TimerState) (type : OsTimerType) (func argument : Word) (attr : BlockAttr)
    (address : Word) (old : TimerMemory) : NamedTimers :=
  let links : Links Unit Word :=
    ⟨Function.update state.activeTimers.next (.node address) old.next,
      Function.update state.activeTimers.prev (.node address) old.prev⟩
  { state := { state with
      timer := Function.update state.timer address
        { old.timer with
          marker := rtosTimerMarker
          attrBits := attr.bits address
          type := type
          func := func
          argument := argument }
      activeTimers := LinkFields.listInit links (.node address) }
    name := setName old.name (attr.name.getD CString.empty) }

def cleared (address : Word) : TimerMemory :=
  ⟨⟨0, 0, .osTimerOnce, 0, 0, 0, 0⟩, fun _ => 0, .node address, .node address⟩

def osTimerNew (state : TimerState) (type : OsTimerType) (func argument : Word) (attr : BlockAttr)
    (around : Surroundings) (old : TimerMemory) : Option NamedTimers :=
  if func = 0 then none
  else if osKernelContextIsValid false 0 around.context ≠ .osOK then none
  else (attr.block sizeofRtosTimer around.allocated).map fun address =>
    timerInit state type func argument attr address (if attr.cbMem = 0 then cleared address else old)

/-- A call of a function of timers, a tick, or a look at the name of the timer. -/
inductive TimerUse where
  | act (action : TimerAction)
  | isRunning (timerId : Word) (context : Context)
  | getName

/-- What can be told after a use: what it has returned, the timers that have been posted to the timer
thread, and the control blocks that have been given back. -/
structure TimerAnswer where
  returned : Word
  name : NameField
  posts : List TimerPost
  released : List Word

def useTimers : TimerUse → TimerState → Option (Word × TimerState)
  | .act (.start timerId ticks context), state =>
      (osTimerStart timerId context state ticks).map fun (osStatus, state) => (osStatus.code, state)
  | .act (.stop timerId context), state =>
      some ((osTimerStop timerId context state).1.code, (osTimerStop timerId context state).2)
  | .act (.delete timerId context), state =>
      some ((osTimerDelete timerId context state).1.code, (osTimerDelete timerId context state).2)
  | .act (.tick core outcomes), state => (timerTick core outcomes state).map fun state => (0, state)
  | .isRunning timerId context, state => some (osTimerIsRunning timerId context state, state)
  | .getName, state => some (0, state)

def performTimers (use : TimerUse) (timers : NamedTimers) : Option (TimerAnswer × NamedTimers) :=
  (useTimers use timers.state).map fun (returned, state) =>
    (⟨returned, timers.name, state.posts, state.released⟩, ⟨state, timers.name⟩)

variable {timerId other : Word} {state next : TimerState} {links : Links Unit Word}
  {ticks target : Word}

def Hidden (timerId : Word) (links : Links Unit Word) : Prop :=
  ∀ node, (links.next node = .node timerId ↔ node = .node timerId) ∧
    (links.prev node = .node timerId ↔ node = .node timerId)

def blur (timerId ticks target : Word) (state : TimerState) : TimerState :=
  state.setTimer timerId fun timer => { timer with ticks := ticks, target := target }

section Links

variable {node entry : Node Unit Word}

theorem Hidden.setNext (hidden : Hidden timerId links) (nodeOther : node ≠ .node timerId)
    (entryOther : entry ≠ .node timerId) : Hidden timerId (links.setNext node entry) := by
  intro source
  refine ⟨?_, (hidden source).2⟩
  by_cases same : source = node
  · have isEntry : (links.setNext node entry).next source = entry := by
      rw [same]
      exact Function.update_self ..
    rw [isEntry, same]
    exact iff_of_false entryOther nodeOther
  · have kept : (links.setNext node entry).next source = links.next source :=
      Function.update_of_ne same ..
    rw [kept]
    exact (hidden source).1

theorem Hidden.setPrev (hidden : Hidden timerId links) (nodeOther : node ≠ .node timerId)
    (entryOther : entry ≠ .node timerId) : Hidden timerId (links.setPrev node entry) := by
  intro source
  refine ⟨(hidden source).1, ?_⟩
  by_cases same : source = node
  · have isEntry : (links.setPrev node entry).prev source = entry := by
      rw [same]
      exact Function.update_self ..
    rw [isEntry, same]
    exact iff_of_false entryOther nodeOther
  · have kept : (links.setPrev node entry).prev source = links.prev source :=
      Function.update_of_ne same ..
    rw [kept]
    exact (hidden source).2

theorem Hidden.next_ne (hidden : Hidden timerId links) (nodeOther : node ≠ .node timerId) :
    links.next node ≠ .node timerId := fun same => nodeOther ((hidden node).1.mp same)

theorem Hidden.prev_ne (hidden : Hidden timerId links) (nodeOther : node ≠ .node timerId) :
    links.prev node ≠ .node timerId := fun same => nodeOther ((hidden node).2.mp same)

theorem Hidden.listInit (hidden : Hidden timerId links) (nodeOther : node ≠ .node timerId) :
    Hidden timerId (LinkFields.listInit links node) :=
  (hidden.setNext nodeOther nodeOther).setPrev nodeOther nodeOther

theorem Hidden.listInsertBefore (hidden : Hidden timerId links) (entryOther : entry ≠ .node timerId)
    (nodeOther : node ≠ .node timerId) : Hidden timerId (LinkFields.listInsertBefore links entry node) := by
  have first := hidden.setNext nodeOther entryOther
  have second := first.setPrev nodeOther (first.prev_ne entryOther)
  have third := second.setNext (second.prev_ne entryOther) nodeOther
  exact third.setPrev entryOther nodeOther

theorem Hidden.listRemove (hidden : Hidden timerId links) (nodeOther : node ≠ .node timerId) :
    Hidden timerId (LinkFields.listRemove links node) := by
  have first := hidden.setPrev (hidden.next_ne nodeOther) (hidden.prev_ne nodeOther)
  have second := first.setNext (first.prev_ne nodeOther) (first.next_ne nodeOther)
  exact second.listInit nodeOther

theorem Hidden.listPop (hidden : Hidden timerId links) (nodeOther : node ≠ .node timerId) :
    Hidden timerId (LinkFields.listPop links node).2 := by
  unfold LinkFields.listPop
  split
  · exact hidden
  · exact hidden.listRemove (hidden.next_ne nodeOther)

theorem Hidden.not_linked (hidden : Hidden timerId links) :
    LinkFields.listIsLinked links (.node timerId) = false := by
  rw [LinkFields.listIsLinked, decide_eq_false_iff_not]
  exact fun linked => linked.1 ((hidden _).1.mpr rfl)

/-- A loop that does not look at the timer ends at another node, and depends on the others only. -/
theorem Hidden.listForEachEntry (hidden : Hidden timerId links) {stops stopsToo : Word → Bool}
    (same : ∀ current, current ≠ timerId → stops current = stopsToo current) {fuel : Nat}
    (nodeOther : node ≠ .node timerId) :
    LinkFields.listForEachEntry links stops fuel node = LinkFields.listForEachEntry links stopsToo fuel node ∧
      ∀ found, LinkFields.listForEachEntry links stops fuel node = some found → found ≠ .node timerId := by
  induction fuel generalizing node with
  | zero => exact ⟨rfl, nofun⟩
  | succ fuel ih =>
      cases node with
      | head list =>
          refine ⟨rfl, fun found isFound => ?_⟩
          cases isFound
          nofun
      | node current =>
          have currentOther : current ≠ timerId := fun isIt => nodeOther (congrArg _ isIt)
          obtain ⟨sameRest, otherRest⟩ := ih (hidden.next_ne nodeOther)
          simp only [LinkFields.listForEachEntry, same current currentOther]
          split
          · refine ⟨rfl, fun found isFound => ?_⟩
            cases isFound
            exact nodeOther
          · exact ⟨sameRest, otherRest⟩

end Links

section Blur

theorem timer_blur_of_ne (different : other ≠ timerId) :
    (blur timerId ticks target state).timer other = state.timer other :=
  TimerState.timer_setTimer_of_ne different

theorem timer_blur_self : (blur timerId ticks target state).timer timerId =
    { state.timer timerId with ticks := ticks, target := target } :=
  TimerState.timer_setTimer_self

theorem blur_setTimer (different : other ≠ timerId) (change : RtosTimer → RtosTimer) :
    (blur timerId ticks target state).setTimer other change =
      blur timerId ticks target (state.setTimer other change) := by
  have otherTimer : (blur timerId ticks target state).timer other = state.timer other :=
    timer_blur_of_ne different
  have kept : (state.setTimer other change).timer timerId = state.timer timerId :=
    TimerState.timer_setTimer_of_ne different.symm
  rw [TimerState.setTimer, otherTimer, blur, blur, TimerState.setTimer, TimerState.setTimer, kept]
  simp only [TimerState.setTimer, Function.update_comm different]

theorem blur_aim (different : other ≠ timerId) (goal : Word) (moment : Nat) :
    (blur timerId ticks target state).aim other goal moment =
      blur timerId ticks target (state.aim other goal moment) := by
  rw [TimerState.aim, blur_setTimer different]
  rfl

theorem blur_refuse {now expired : Word} (different : expired ≠ timerId) :
    refuse now expired (blur timerId ticks target state) =
      blur timerId ticks target (refuse now expired state) := by
  rw [refuse, blur_aim different]
  rfl

theorem blur_rearm {now expired : Word} (different : expired ≠ timerId) :
    rearm now expired (blur timerId ticks target state) =
      blur timerId ticks target (rearm now expired state) := by
  simp only [rearm, timer_blur_of_ne different, blur_aim different]
  rfl

theorem insertInOrder_blur (hidden : Hidden timerId state.activeTimers) (different : other ≠ timerId) :
    insertInOrder other (blur timerId ticks target state) =
        (insertInOrder other state).map (blur timerId ticks target) ∧
      ∀ after, insertInOrder other state = some after → Hidden timerId after.activeTimers := by
  have headOther : (Node.head () : Node Unit Word) ≠ .node timerId := nofun
  have otherNode : (Node.node other : Node Unit Word) ≠ .node timerId := by
    intro same
    cases same
    exact different rfl
  obtain ⟨same, elsewhere⟩ := @Hidden.listForEachEntry timerId state.activeTimers
    (state.activeTimers.next (.head ())) hidden
    (fun current => decide ((state.timer other).target < (state.timer current).target))
    (fun current => decide (((blur timerId ticks target state).timer other).target <
      ((blur timerId ticks target state).timer current).target))
    (fun current currentOther => by
      rw [timer_blur_of_ne different, timer_blur_of_ne currentOther])
    (addressSpace + 1) (hidden.next_ne headOther)
  constructor
  · have links : (blur timerId ticks target state).activeTimers = state.activeTimers := rfl
    rw [insertInOrder, insertInOrder, links, ← same, Option.map_map]
    rfl
  · intro after inserted
    obtain ⟨entry, found, rfl⟩ := Option.map_eq_some_iff.mp inserted
    exact hidden.listInsertBefore (elsewhere entry found) otherNode

theorem expiredTimer_blur (hidden : Hidden timerId state.activeTimers) (now : Word) :
    expiredTimer now (blur timerId ticks target state) = expiredTimer now state ∧
      ∀ expired, expiredTimer now state = some expired → expired ≠ timerId := by
  have headOther : (Node.head () : Node Unit Word) ≠ .node timerId := nofun
  have firstOther := hidden.next_ne headOther
  have links : (blur timerId ticks target state).activeTimers = state.activeTimers := rfl
  rw [expiredTimer, expiredTimer, links]
  cases isFirst : state.activeTimers.next (.head ()) with
  | head list => exact ⟨rfl, nofun⟩
  | node first =>
      have different : first ≠ timerId := by
        rintro rfl
        exact firstOther isFirst
      simp only [timer_blur_of_ne different]
      refine ⟨trivial, fun expired isExpired => ?_⟩
      obtain ⟨-, isFirstToo⟩ := Option.ite_none_right_eq_some.mp isExpired
      cases isFirstToo
      exact different

theorem afterPost_blur {now expired : Word} {osStatus : OsStatus}
    (hidden : Hidden timerId state.activeTimers) (different : expired ≠ timerId) :
    afterPost now expired osStatus (blur timerId ticks target state) =
        (afterPost now expired osStatus state).map (blur timerId ticks target) ∧
      ∀ after, afterPost now expired osStatus state = some after →
        Hidden timerId after.activeTimers := by
  have accepted : accept expired (blur timerId ticks target state) =
      blur timerId ticks target (accept expired state) := rfl
  simp only [afterPost, timer_blur_of_ne different, accepted, blur_refuse different,
    blur_rearm different]
  split
  · exact insertInOrder_blur hidden different
  · split
    · exact insertInOrder_blur hidden different
    · refine ⟨rfl, fun after done => ?_⟩
      cases done
      exact hidden

theorem tickLoop_blur {now : Word} {outcomes : List OsStatus}
    (hidden : Hidden timerId state.activeTimers) :
    tickLoop now outcomes (blur timerId ticks target state) =
        (tickLoop now outcomes state).map (blur timerId ticks target) ∧
      ∀ after, tickLoop now outcomes state = some after → Hidden timerId after.activeTimers := by
  induction outcomes generalizing state with
  | nil =>
      rw [tickLoop, tickLoop, (expiredTimer_blur hidden now).1]
      split
      · exact ⟨rfl, nofun⟩
      · refine ⟨rfl, fun after done => ?_⟩
        cases done
        exact hidden
  | cons osStatus rest ih =>
      obtain ⟨same, elsewhere⟩ := @expiredTimer_blur timerId state ticks target hidden now
      rw [tickLoop, tickLoop, same]
      cases isExpired : expiredTimer now state with
      | none => exact ⟨rfl, nofun⟩
      | some expired =>
          have different := elsewhere expired isExpired
          have popped : Hidden timerId (popExpired state).activeTimers := hidden.listPop nofun
          have commutes : popExpired (blur timerId ticks target state) =
              blur timerId ticks target (popExpired state) := rfl
          obtain ⟨samePost, stillHidden⟩ :=
            @afterPost_blur timerId (popExpired state) ticks target now expired osStatus popped different
          simp only [Option.bind_some, commutes, samePost]
          split
          · split
            · exact ⟨rfl, stillHidden⟩
            · exact ⟨rfl, nofun⟩
          · split
            · cases isPost : afterPost now expired osStatus (popExpired state) with
              | none => exact ⟨rfl, nofun⟩
              | some after => exact ih (stillHidden after isPost)
            · exact ⟨rfl, nofun⟩

theorem timerTick_blur {core : Nat} {outcomes : List OsStatus}
    (hidden : Hidden timerId state.activeTimers) :
    timerTick core outcomes (blur timerId ticks target state) =
        (timerTick core outcomes state).map (blur timerId ticks target) ∧
      ∀ after, timerTick core outcomes state = some after → Hidden timerId after.activeTimers := by
  rw [timerTick, timerTick, schedulerTickHook, schedulerTickHook]
  by_cases first : core = 0
  · simp only [first, if_true, ne_eq, not_true_eq_false, if_false]
    exact @tickLoop_blur timerId { state with now := state.now + 1, refused := false } ticks target
      _ _ hidden
  · simp only [first, if_false, ne_eq, not_false_eq_true, if_true]
    refine ⟨rfl, fun after done => ?_⟩
    cases done
    exact hidden

theorem marker_blur (any : Word) :
    ((blur timerId ticks target state).timer any).marker = (state.timer any).marker := by
  by_cases same : any = timerId
  · rw [same, timer_blur_self]
  · rw [timer_blur_of_ne same]

theorem timerStatus_blur (any : Word) (context : Context) :
    timerStatus any context (blur timerId ticks target state) = timerStatus any context state := by
  rw [timerStatus, timerStatus, timerValid_congr (marker_blur any)]

theorem startedTimer_blur_of_ne (different : other ≠ timerId) (number : Word) :
    startedTimer other (blur timerId ticks target state) number =
      blur timerId ticks target (startedTimer other state number) := by
  simp only [startedTimer, blur_setTimer different, blur_aim different]
  rfl

theorem startedTimer_eq (number : Word) : startedTimer timerId state number =
    { state with
      timer := Function.update state.timer timerId
        { state.timer timerId with ticks := number, target := state.tickCount + number }
      deadline := Function.update state.deadline timerId (state.now + number.toNat)
      due := Function.update state.due timerId (state.now + number.toNat)
      running := Function.update state.running timerId true } := by
  simp only [startedTimer, TimerState.aim, TimerState.setTimer, TimerState.setDue,
    TimerState.setRunning, Function.update_self, Function.update_idem]
  rfl

theorem startedTimer_blur_self (number : Word) :
    startedTimer timerId (blur timerId ticks target state) number =
      startedTimer timerId state number := by
  have updated : (blur timerId ticks target state).timer = Function.update state.timer timerId
      { state.timer timerId with ticks := ticks, target := target } := rfl
  rw [startedTimer_eq, startedTimer_eq, updated, Function.update_idem, Function.update_self]
  rfl

theorem deleteTimer_blur (any : Word) :
    deleteTimer any (blur timerId ticks target state) =
      blur timerId ticks target (deleteTimer any state) := by
  by_cases same : any = timerId
  · subst same
    simp only [deleteTimer, TimerState.setTimer, Function.update_idem, Function.update_self,
      blur]
  · simp only [deleteTimer, blur_setTimer same, timer_blur_of_ne same]
    rfl

end Blur

theorem startStatus_blur (any number : Word) (context : Context) :
    startStatus any context (blur timerId ticks target state) number =
      startStatus any context state number := by
  rw [startStatus, startStatus, timerStatus_blur]

/-- A use goes the same way in two states that differ in what a timer hides, and it still hides it. -/
def Commutes (timerId ticks target : Word) (state : TimerState) (use : TimerUse) : Prop :=
  useTimers use (blur timerId ticks target state) =
      (useTimers use state).map (fun done => (done.1, blur timerId ticks target done.2)) ∧
    ∀ done, useTimers use state = some done → Hidden timerId done.2.activeTimers

theorem commutes_start (hidden : Hidden timerId state.activeTimers) (any number : Word)
    (context : Context) :
    useTimers (.act (.start any number context)) (blur timerId ticks target state) =
        useTimers (.act (.start any number context)) state ∨
      Commutes timerId ticks target state (.act (.start any number context)) := by
  rw [Commutes]
  simp only [useTimers, osTimerStart, startStatus_blur]
  by_cases refused : startStatus any context state number ≠ .osOK
  · rw [if_pos refused, if_pos refused]
    refine .inr ⟨rfl, fun done isDone => ?_⟩
    cases isDone
    exact hidden
  · rw [if_neg refused, if_neg refused]
    by_cases same : any = timerId
    · rw [same, startedTimer_blur_self]
      exact .inl rfl
    · rw [startedTimer_blur_of_ne same]
      obtain ⟨inserted, stillHidden⟩ :=
        @insertInOrder_blur timerId any (startedTimer any state number) ticks target hidden same
      rw [inserted]
      refine .inr ⟨?_, fun done isDone => ?_⟩
      · simp only [Option.map_map]
        rfl
      · rw [Option.map_map] at isDone
        obtain ⟨after, isAfter, rfl⟩ := Option.map_eq_some_iff.mp isDone
        exact stillHidden after isAfter

theorem commutes_stop (hidden : Hidden timerId state.activeTimers) (any : Word) (context : Context) :
    Commutes timerId ticks target state (.act (.stop any context)) := by
  have links : (blur timerId ticks target state).activeTimers = state.activeTimers := rfl
  rw [Commutes]
  simp only [useTimers, osTimerStop, timerStatus_blur, links]
  split
  · refine ⟨rfl, fun done isDone => ?_⟩
    cases isDone
    exact hidden
  · split
    · refine ⟨rfl, fun done isDone => ?_⟩
      cases isDone
      exact hidden
    · next linked =>
        have other : (Node.node any : Node Unit Word) ≠ .node timerId := by
          intro same
          rw [same] at linked
          exact linked hidden.not_linked
        refine ⟨rfl, fun done isDone => ?_⟩
        cases isDone
        exact hidden.listRemove other

theorem commutes_delete (hidden : Hidden timerId state.activeTimers) (any : Word)
    (context : Context) : Commutes timerId ticks target state (.act (.delete any context)) := by
  have links : (blur timerId ticks target state).activeTimers = state.activeTimers := rfl
  rw [Commutes]
  simp only [useTimers, osTimerDelete, timerStatus_blur, links]
  split
  · refine ⟨rfl, fun done isDone => ?_⟩
    cases isDone
    exact hidden
  · split
    · next linked =>
        have other : (Node.node any : Node Unit Word) ≠ .node timerId := by
          intro same
          rw [same, hidden.not_linked] at linked
          cases linked
        have removed : removeTimer any (blur timerId ticks target state) =
            blur timerId ticks target (removeTimer any state) := rfl
        rw [removed, deleteTimer_blur]
        refine ⟨rfl, fun done isDone => ?_⟩
        cases isDone
        exact hidden.listRemove other
    · rw [deleteTimer_blur]
      refine ⟨rfl, fun done isDone => ?_⟩
      cases isDone
      exact hidden

theorem useTimers_blur (hidden : Hidden timerId state.activeTimers) (use : TimerUse) :
    useTimers use (blur timerId ticks target state) = useTimers use state ∨
      Commutes timerId ticks target state use := by
  cases use with
  | act action =>
      cases action with
      | start any number context => exact commutes_start hidden any number context
      | stop any context => exact .inr (commutes_stop hidden any context)
      | delete any context => exact .inr (commutes_delete hidden any context)
      | tick core outcomes =>
          obtain ⟨same, stillHidden⟩ :=
            @timerTick_blur timerId state ticks target core outcomes hidden
          refine .inr ⟨?_, fun done isDone => ?_⟩
          · simp only [useTimers, same, Option.map_map]
            rfl
          · obtain ⟨after, isAfter, rfl⟩ := Option.map_eq_some_iff.mp isDone
            exact stillHidden after isAfter
  | isRunning any context =>
      refine .inr ⟨?_, fun done isDone => ?_⟩
      · have links : (blur timerId ticks target state).activeTimers = state.activeTimers := rfl
        simp only [useTimers, osTimerIsRunning, timerStatus_blur, links, Option.map_some]
      · cases isDone
        exact hidden
  | getName =>
      refine .inr ⟨rfl, fun done isDone => ?_⟩
      cases isDone
      exact hidden

def AlikeTimers (timerId : Word) (timers otherTimers : NamedTimers) : Prop :=
  timers = otherTimers ∨ ∃ ticks target,
    otherTimers = ⟨blur timerId ticks target timers.state, timers.name⟩ ∧
      Hidden timerId timers.state.activeTimers

theorem simulates_timers (timerId : Word) : Simulates performTimers (AlikeTimers timerId) := by
  rintro use timers _ (rfl | ⟨ticks, target, rfl, hidden⟩)
  · cases isDone : performTimers use timers with
    | none => exact .inl ⟨rfl, rfl⟩
    | some done => exact .inr ⟨_, _, _, rfl, rfl, .inl rfl⟩
  · rcases @useTimers_blur timerId timers.state ticks target hidden use with same | ⟨same, still⟩
    · simp only [performTimers, same]
      cases isDone : useTimers use timers.state with
      | none => exact .inl ⟨rfl, rfl⟩
      | some done => exact .inr ⟨_, _, _, rfl, rfl, .inl rfl⟩
    · simp only [performTimers, same]
      cases isDone : useTimers use timers.state with
      | none => exact .inl ⟨rfl, rfl⟩
      | some done =>
          exact .inr ⟨_, _, _, rfl, rfl, .inr ⟨ticks, target, rfl, still done isDone⟩⟩

section Created

variable {type : OsTimerType} {func argument address : Word} {attr : BlockAttr}
  {around : Surroundings}

def Unlisted (address : Word) (links : Links Unit Word) : Prop :=
  ∀ node, node ≠ .node address → links.next node ≠ .node address ∧ links.prev node ≠ .node address

theorem alike_timerInit (unlisted : Unlisted address state.activeTimers) (old otherOld : TimerMemory) :
    AlikeTimers address (timerInit state type func argument attr address old)
      (timerInit state type func argument attr address otherOld) := by
  right
  refine ⟨otherOld.timer.ticks, otherOld.timer.target, ?_, ?_⟩
  · have sameName := setName_constant old.name otherOld.name (attr.name.getD CString.empty)
    simp only [timerInit, blur, TimerState.setTimer, LinkFields.listInit, Links.setNext,
      Links.setPrev, Function.update_idem, Function.update_self, sameName]
  · intro node
    by_cases same : node = .node address
    · simp [timerInit, LinkFields.listInit, Links.setNext, Links.setPrev, same]
    · obtain ⟨next, prev⟩ := unlisted node same
      simp [timerInit, LinkFields.listInit, Links.setNext, Links.setPrev, same, next, prev]

end Created

end PicoToolkit.Creation
