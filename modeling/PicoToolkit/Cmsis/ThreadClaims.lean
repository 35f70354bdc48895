import PicoToolkit.Cmsis.WaiterDeletes

/-!
Calls that join a thread, detach it or find it ended: if they do not overlap, a joiner or the reaper that gives
up the control block of a thread is the only one that works on it.
-/

namespace PicoToolkit

open Transition Interleaving ThreadsState RtosThread

def ThreadPlace.cleans : ThreadPlace → Option Nat
  | .clean thread _ _ => some thread
  | _ => none

def Cleaned (state : ThreadsState) (thread : Nat) : Prop :=
  ∃ index, state.Has index fun own => own.state ≠ .terminated ∧ own.place.cleans = some thread

/-- Control blocks are given up once, while nobody else works on them, by a joiner just when the thread is
joinable; who has left the list of all threads is given up, or will be. -/
structure ReclaimedOnce (state : ThreadsState) : Prop where
  once : (state.reclaims.map Reclaim.thread).Nodup
  released : state.released.Nodup
  alone : ∀ reclaim ∈ state.reclaims, reclaim.busy = false
  decided : ∀ reclaim ∈ state.reclaims, reclaim.byReaper = !reclaim.joinable
  left : ∀ (index : Nat) (thread : RtosThread), state.threads[index]? = some thread →
    thread.registered = false →
    index ∈ state.reclaims.map Reclaim.thread ∨ Cleaned state index ∨
      index ∈ state.reapList ∧ ∃ reaper, state.reaper = some reaper ∧
        state.Has reaper fun own => own.state ≠ .terminated
  stays : ∀ (index : Nat) (thread : RtosThread), state.threads[index]? = some thread →
    thread.joinable = true → thread.registered = false →
    (∃ reclaim ∈ state.reclaims, reclaim.thread = index ∧ reclaim.byReaper = false) ∨
      ∃ joiner, state.Has joiner fun own => own.state ≠ .terminated ∧
        ∃ part, own.place = .clean index part .joiner

namespace ThreadsState

variable (state : ThreadsState)

def hasEnded (thread : Nat) : Bool :=
  state.threads[thread]?.any fun target => decide (target.state = .terminated)

/-- The thread that a call joins or detaches, or that `osThreadTerminate` finds ended. -/
def claims : ThreadPlace → Option Nat
  | .wait _ _ _ _ (.join thread) | .remove thread | .clean thread _ .joiner | .detach thread
  | .detached thread | .ended thread => some thread
  | .terminate thread => if state.hasEnded thread then some thread else none
  | _ => none

def claimed (index thread : Nat) : Bool :=
  state.others [index] fun place => decide (state.claims place = some thread)

end ThreadsState

def ThreadPlace.looksAt : ThreadPlace → Option Nat
  | .terminate thread | .detached thread => some thread
  | _ => none

/-- When a task ends, no other call is about to look whether it has, and it is not the task of the reaper or
of a thread that gives up a control block. -/
structure EndsAlone (state : ThreadsState) (index thread : Nat) : Prop where
  unseen : state.others [index, thread] (fun place => decide (place.looksAt = some thread)) = false
  notReaper : state.reaper ≠ some thread
  notCleaner : state.threads[thread]?.bind (fun own => own.place.cleans) = none

/-- The calls for one thread that join it, detach it or find it ended do not overlap, and a thread that the
reaper has been told to take is not terminated again. -/
def Separate (state : ThreadsState) : ThreadAction → Prop
  | .request index (.osThreadJoin thread) | .request index (.osThreadDetach thread) =>
      state.claimed index thread = false
  | .request index (.osThreadTerminate thread) => state.hasEnded thread = true →
      state.claimed index thread = false ∧ state.threads[thread]?.all (fun target => !target.marked) = true
  | .advance index _ => ∀ thread ∈ state.threads[index]?.bind fun own => own.place.terminates,
      state.hasEnded thread = false → EndsAlone state index thread
  | .evict thread _ => EndsAlone state thread thread
  | _ => True

structure SeparateStep (state : ThreadsState) (action : ThreadAction) : Prop where
  unmarked : NewUnmarked action
  waiters : SparesWaiters state action
  separate : Separate state action

def Fits (state : ThreadsState) : ThreadPlace → Prop
  | .wait _ _ _ _ (.join thread) | .remove thread => state.Has thread fun target =>
      target.joinable = true ∧ target.registered = true ∧ target.marked = false
  | .clean thread _ .joiner =>
      (state.Has thread fun target => target.joinable = true ∧ target.marked = false) ∧
        thread ∉ state.reclaims.map Reclaim.thread
  | .clean thread _ (.reaper _) =>
      thread ∉ state.reclaims.map Reclaim.thread ∧ thread ∉ state.reapList
  | .detach thread => state.Has thread fun target => target.joinable = true ∧ target.marked = false
  | .detached thread | .terminate thread => state.Has thread fun target => target.marked = false
  | .ended thread => state.Has thread fun target =>
      target.marked = false ∧ target.state = .terminated
  | _ => True

structure Claims (state : ThreadsState) : Prop where
  fits : ∀ (index : Nat) (own : RtosThread), state.threads[index]? = some own →
    own.state ≠ .terminated → Fits state own.place
  sole : ∀ (index other : Nat) (own caller : RtosThread) (thread : Nat),
    state.threads[index]? = some own → state.threads[other]? = some caller →
    own.state ≠ .terminated → caller.state ≠ .terminated →
    state.claims own.place = some thread → state.claims caller.place = some thread → index = other

def ThreadPlace.takes : ThreadPlace → Bool
  | .pop _ | .clean _ _ (.reaper _) => true
  | _ => false

structure Records (state : ThreadsState) : Prop where
  once : (state.reclaims.map Reclaim.thread).Nodup
  alone : ∀ reclaim ∈ state.reclaims, reclaim.busy = false
  decided : ∀ reclaim ∈ state.reclaims, reclaim.byReaper = !reclaim.joinable
  gone : ∀ reclaim ∈ state.reclaims, state.Has reclaim.thread Gone ∧
    (reclaim.byReaper = true → state.Has reclaim.thread Reaped)
  nodup : state.reapList.Nodup
  pending : ∀ thread ∈ state.reapList, thread ∉ state.reclaims.map Reclaim.thread
  released : state.released.Sublist (state.reclaims.map Reclaim.thread)
  left : ∀ (index : Nat) (thread : RtosThread), state.threads[index]? = some thread →
    thread.registered = false →
    index ∈ state.reclaims.map Reclaim.thread ∨ Cleaned state index ∨ index ∈ state.reapList
  reaper : ∀ reaper, state.reaper = some reaper → state.Has reaper fun own =>
    own.state ≠ .terminated ∧ (own.place.takes = true ∨ state.reapList = [])
  idle : state.reaper = none → state.reapList = []

section Claims

variable {state next : ThreadsState} {index : Nat} {place : ThreadPlace} {own : RtosThread}
  {update : RtosThread → RtosThread} {object : EventObject}

theorem others_eq_false {except : List Nat} {test : ThreadPlace → Bool} :
    state.others except test = false ↔ ∀ (other : Nat) (caller : RtosThread), other ∉ except →
      state.threads[other]? = some caller → caller.state ≠ .terminated → test caller.place = false := by
  rw [others, List.any_eq_false]
  constructor
  · intro none_ other caller notIn found live
    have isRange := List.mem_range.mpr (List.getElem?_eq_some_iff.mp found).1
    have test_ := none_ other isRange
    rw [found, Option.any_some, decide_eq_true notIn, decide_eq_true live] at test_
    simpa using test_
  · intro none_ other _ isThere
    rw [Bool.and_eq_true, decide_eq_true_iff] at isThere
    obtain ⟨caller, found, both⟩ := (Option.any_eq_true _ _).mp isThere.2
    rw [Bool.and_eq_true, decide_eq_true_iff] at both
    cases both.2.symm.trans (none_ other caller isThere.1 found both.1)

theorem hasEnded_iff {thread : Nat} : state.hasEnded thread = true ↔ state.Has thread RtosThread.Ended := by
  rw [hasEnded, Option.any_eq_true]
  simp only [Has, RtosThread.Ended, decide_eq_true_iff]

def ThreadPlace.needsRegistered : ThreadPlace → Bool
  | .wait _ _ _ _ (.join _) | .remove _ => true
  | _ => false

def ThreadPlace.needsJoinable : ThreadPlace → Bool
  | .wait _ _ _ _ (.join _) | .remove _ | .clean _ _ .joiner | .detach _ => true
  | _ => false

def Holds (state next : ThreadsState) (place : ThreadPlace) (thread : Nat) : Prop :=
  ∀ target : RtosThread, state.threads[thread]? = some target →
    ∃ after : RtosThread, next.threads[thread]? = some after ∧
      (place.needsJoinable = true → target.joinable = true → after.joinable = true) ∧
      (place.needsRegistered = true → target.registered = true → target.marked = false →
        after.registered = true) ∧
      (target.marked = false → after.marked = false) ∧
      (target.state = .terminated → after.state = .terminated)

structure Unharmed (state next : ThreadsState) (place : ThreadPlace) : Prop where
  holds : ∀ thread, place.about = some thread → Holds state next place thread
  ended : ∀ thread, place.terminates = some thread → next.hasEnded thread = state.hasEnded thread
  reclaims : ∀ thread, place.cleans = some thread → thread ∈ next.reclaims.map Reclaim.thread →
    thread ∈ state.reclaims.map Reclaim.thread
  reapList : ∀ thread flags part, place = .clean thread part (.reaper flags) →
    thread ∈ next.reapList → thread ∈ state.reapList

theorem Unharmed.claims (unharmed : Unharmed state next place) : next.claims place = state.claims place := by
  cases place with
  | terminate thread =>
      rw [ThreadsState.claims, unharmed.ended thread rfl]
      rfl
  | wait object wish timeout place after =>
      cases after with
      | _ => rfl
  | clean thread part cleaner =>
      cases cleaner with
      | _ => rfl
  | _ => rfl

theorem Unharmed.fits (unharmed : Unharmed state next place) (fits : Fits state place) :
    Fits next place := by
  cases place with
  | wait object wish timeout place after =>
      cases after with
      | join thread =>
          obtain ⟨target, found, joinable, registered, unmarked⟩ := fits
          obtain ⟨after, isAfter, joins, registers, unmarks, _⟩ := unharmed.holds thread rfl target found
          exact ⟨after, isAfter, joins rfl joinable, registers rfl registered unmarked, unmarks unmarked⟩
      | leave => trivial
      | reap => trivial
  | remove thread =>
      obtain ⟨target, found, joinable, registered, unmarked⟩ := fits
      obtain ⟨after, isAfter, joins, registers, unmarks, _⟩ := unharmed.holds thread rfl target found
      exact ⟨after, isAfter, joins rfl joinable, registers rfl registered unmarked, unmarks unmarked⟩
  | clean thread part cleaner =>
      cases cleaner with
      | joiner =>
          obtain ⟨⟨target, found, joinable, unmarked⟩, notYet⟩ := fits
          obtain ⟨after, isAfter, joins, _, unmarks, _⟩ := unharmed.holds thread rfl target found
          exact ⟨⟨after, isAfter, joins rfl joinable, unmarks unmarked⟩, fun member =>
            notYet (unharmed.reclaims thread rfl member)⟩
      | reaper flags =>
          exact ⟨fun member => fits.1 (unharmed.reclaims thread rfl member), fun member =>
            fits.2 (unharmed.reapList thread flags part rfl member)⟩
  | detach thread =>
      obtain ⟨target, found, joinable, unmarked⟩ := fits
      obtain ⟨after, isAfter, joins, _, unmarks, _⟩ := unharmed.holds thread rfl target found
      exact ⟨after, isAfter, joins rfl joinable, unmarks unmarked⟩
  | detached thread =>
      obtain ⟨target, found, unmarked⟩ := fits
      obtain ⟨after, isAfter, _, _, unmarks, _⟩ := unharmed.holds thread rfl target found
      exact ⟨after, isAfter, unmarks unmarked⟩
  | terminate thread =>
      obtain ⟨target, found, unmarked⟩ := fits
      obtain ⟨after, isAfter, _, _, unmarks, _⟩ := unharmed.holds thread rfl target found
      exact ⟨after, isAfter, unmarks unmarked⟩
  | ended thread =>
      obtain ⟨target, found, unmarked, ended⟩ := fits
      obtain ⟨after, isAfter, _, _, unmarks, ends⟩ := unharmed.holds thread rfl target found
      exact ⟨after, isAfter, unmarks unmarked, ends ended⟩
  | _ => trivial

/-- The claims after a step that does not matter to the threads that stay alive, and lets none go on. -/
theorem Claims.kept (claims : Claims state)
    (others : ∀ (other : Nat) (after : RtosThread), next.threads[other]? = some after →
      after.state ≠ .terminated →
      next.claims after.place = none ∧ Fits next after.place ∨
      ∃ caller, state.threads[other]? = some caller ∧ caller.state ≠ .terminated ∧
        after.place = caller.place ∧ Unharmed state next caller.place) : Claims next := by
  have same : ∀ (other : Nat) (after : RtosThread) (thread : Nat),
      next.threads[other]? = some after → after.state ≠ .terminated →
      next.claims after.place = some thread →
      ∃ caller, state.threads[other]? = some caller ∧ caller.state ≠ .terminated ∧
        state.claims caller.place = some thread := by
    intro other after thread found live claimed
    rcases others other after found live with ⟨none_, _⟩ | ⟨caller, isCaller, wasLive, isSame, fine⟩
    · cases none_.symm.trans claimed
    · refine ⟨caller, isCaller, wasLive, ?_⟩
      rw [← fine.claims, ← isSame]
      exact claimed
  refine ⟨fun other after found live => ?_, fun first second own caller thread isOwn isCaller liveOwn
    liveCaller claimsOwn claimsCaller => ?_⟩
  · rcases others other after found live with ⟨_, fits⟩ | ⟨caller, isCaller, wasLive, isSame, fine⟩
    · exact fits
    · rw [isSame]
      exact fine.fits (claims.fits other caller isCaller wasLive)
  · obtain ⟨before, found, live, claimed⟩ := same first own thread isOwn liveOwn claimsOwn
    obtain ⟨other, isOther, liveOther, claimedOther⟩ :=
      same second caller thread isCaller liveCaller claimsCaller
    exact claims.sole first second before other thread found isOther live liveOther claimed claimedOther

theorem holds_of_getElem? {thread : Nat} (same : next.threads[thread]? = state.threads[thread]?) :
    Holds state next place thread :=
  fun target found => ⟨target, same.trans found, fun _ => id, fun _ registered _ => registered, id, id⟩

theorem hasEnded_of_getElem? {thread : Nat}
    (same : next.threads[thread]?.map RtosThread.state = state.threads[thread]?.map RtosThread.state) :
    next.hasEnded thread = state.hasEnded thread := by
  have reads : ∀ state : ThreadsState, state.hasEnded thread =
      (state.threads[thread]?.map RtosThread.state).any fun place => decide (place = .terminated) := by
    intro state
    rw [hasEnded, Option.any_map]
  rw [reads, reads, same]

theorem Claims.change (claims : Claims state) {target : Nat}
    (threads : next.threads = (state.change target update).threads)
    (places : ∀ thread, (update thread).place = thread.place)
    (lives : ∀ thread : RtosThread, state.threads[target]? = some thread →
      (update thread).state ≠ .terminated → thread.state ≠ .terminated)
    (others : ∀ (other : Nat) (caller : RtosThread), state.threads[other]? = some caller →
      caller.state ≠ .terminated → (other = target → (update caller).state ≠ .terminated) →
      Unharmed state next caller.place) : Claims next := by
  refine claims.kept fun other after isAfter live => Or.inr ?_
  rw [threads] at isAfter
  rcases getElem?_change isAfter with ⟨caller, isCaller, isTarget, rfl⟩ | ⟨notTarget, isCaller⟩
  · have wasLive := lives caller (isTarget ▸ isCaller) live
    exact ⟨caller, isCaller, wasLive, places caller, others other caller isCaller wasLive fun _ => live⟩
  · exact ⟨after, isCaller, live, rfl, others other after isCaller live fun isTarget =>
      (notTarget isTarget).elim⟩

theorem unharmed_of_move (threads : next.threads = (state.move index place).threads)
    (reclaims : next.reclaims = state.reclaims)
    (reapList : ∀ thread ∈ next.reapList, thread ∈ state.reapList) (where_ : ThreadPlace) :
    Unharmed state next where_ := by
  have keeps : ∀ (thread : Nat) (target : RtosThread), state.threads[thread]? = some target →
      ∃ where_, next.threads[thread]? = some { target with place := where_ } := by
    intro thread target found
    rw [threads, move]
    by_cases isIt : thread = index
    · subst isIt
      exact ⟨place, getElem?_change_self found⟩
    · exact ⟨target.place, (getElem?_change_ne isIt).trans found⟩
  refine ⟨fun thread _ target found => ?_, fun thread _ => hasEnded_of_getElem? ?_, fun _ _ => ?_,
    fun thread _ _ _ => reapList thread⟩
  · obtain ⟨where_, isAfter⟩ := keeps thread target found
    exact ⟨_, isAfter, fun _ => id, fun _ registered _ => registered, id, id⟩
  · rw [threads, move, change, List.getElem?_modify]
    cases state.threads[thread]? with
    | none =>
        split
        · rfl
        · rfl
    | some target =>
        split
        · rfl
        · rfl
  · rw [reclaims]
    exact id

def Free (state : ThreadsState) (index thread : Nat) : Prop :=
  ∀ (other : Nat) (caller : RtosThread), other ≠ index → state.threads[other]? = some caller →
    caller.state ≠ .terminated → state.claims caller.place ≠ some thread

theorem free_of_claimed {thread : Nat} (notClaimed : state.claimed index thread = false) :
    Free state index thread := by
  intro other caller isOther found live claimed
  have none_ := others_eq_false.mp notClaimed other caller (List.mem_singleton.not.mpr isOther) found live
  exact absurd claimed (of_decide_eq_false none_)

theorem Claims.free (claims : Claims state) (found : state.threads[index]? = some own)
    (live : own.state ≠ .terminated) {thread : Nat} (claimed : state.claims own.place = some thread) :
    Free state index thread := fun other caller isOther isCaller liveCaller claimedCaller =>
  isOther (claims.sole other index caller own thread isCaller found liveCaller live claimedCaller claimed)

theorem Claims.move (claims : Claims state) (threads : next.threads = (state.move index place).threads)
    (reclaims : next.reclaims = state.reclaims)
    (reapList : ∀ thread ∈ next.reapList, thread ∈ state.reapList) (fits : Fits next place)
    (free : ∀ thread, state.claims place = some thread → Free state index thread) : Claims next := by
  have fine := unharmed_of_move threads reclaims reapList
  have before : ∀ (other : Nat) (after : RtosThread), next.threads[other]? = some after →
      ∃ caller, state.threads[other]? = some caller ∧ after.state = caller.state ∧
        (other = index ∧ after.place = place ∨ other ≠ index ∧ after.place = caller.place) := by
    intro other after found
    rw [threads] at found
    rcases getElem?_change found with ⟨caller, isCaller, isIt, rfl⟩ | ⟨different, isCaller⟩
    · exact ⟨caller, isCaller, rfl, Or.inl ⟨isIt, rfl⟩⟩
    · exact ⟨after, isCaller, rfl, Or.inr ⟨different, rfl⟩⟩
  refine ⟨fun other after found live => ?_, fun first second own caller thread isOwn isCaller liveOwn
    liveCaller claimsOwn claimsCaller => ?_⟩
  · obtain ⟨caller, isCaller, same, ⟨_, isPlace⟩ | ⟨_, isPlace⟩⟩ := before other after found
    · rw [isPlace]
      exact fits
    · rw [isPlace]
      exact (fine caller.place).fits (claims.fits other caller isCaller (same ▸ live))
  · obtain ⟨before1, found1, same1, first_⟩ := before first own isOwn
    obtain ⟨before2, found2, same2, second_⟩ := before second caller isCaller
    rw [(fine own.place).claims] at claimsOwn
    rw [(fine caller.place).claims] at claimsCaller
    rcases first_ with ⟨rfl, place1⟩ | ⟨different1, place1⟩
    · rcases second_ with ⟨rfl, _⟩ | ⟨different2, place2⟩
      · rfl
      · rw [place1] at claimsOwn
        rw [place2] at claimsCaller
        exact absurd claimsCaller (free thread claimsOwn second before2 different2 found2 (same2 ▸ liveCaller))
    · rw [place1] at claimsOwn
      rcases second_ with ⟨rfl, place2⟩ | ⟨_, place2⟩
      · rw [place2] at claimsCaller
        exact absurd claimsOwn (free thread claimsCaller first before1 different1 found1 (same1 ▸ liveOwn))
      · rw [place2] at claimsCaller
        exact claims.sole first second before1 before2 thread found1 found2 (same1 ▸ liveOwn)
          (same2 ▸ liveCaller) claimsOwn claimsCaller

/-- A change of one thread and a move of another, or the same one, can be made in either order. -/
theorem threads_change_move {target : Nat}
    (commutes : ∀ (thread : RtosThread) (place : ThreadPlace),
      update { thread with place := place } = { update thread with place := place }) :
    ((state.change target update).move index place).threads =
      ((state.move index place).change target update).threads := by
  simp only [ThreadsState.move, ThreadsState.change]
  by_cases isIt : target = index
  · subst isIt
    rw [List.modify_modify_eq, List.modify_modify_eq]
    refine congrArg (fun update => state.threads.modify target update) (funext fun thread => ?_)
    exact (commutes thread place).symm
  · rw [List.modify_modify_ne _ _ _ isIt]

theorem Claims.noneAbout (life : Life state) (claims : Claims state)
    (found : state.threads[index]? = some own) (live : own.state ≠ .terminated) {thread : Nat}
    (claimed : state.claims own.place = some thread) (ended : state.Has thread RtosThread.Ended)
    (unmarked : state.Has thread fun target => target.marked = false) {other : Nat} {caller : RtosThread}
    (isOther : other ≠ index) (isCaller : state.threads[other]? = some caller)
    (liveCaller : caller.state ≠ .terminated) : caller.place.about ≠ some thread := by
  intro about
  have free := claims.free found live claimed other caller isOther isCaller liveCaller
  have may := (life.threads other caller isCaller).place
  cases isPlace : caller.place with
  | wait object wish timeout place after =>
      rw [isPlace] at free about
      cases after with
      | join joined => exact free about
      | leave => cases about
      | reap => cases about
  | clean cleaned part cleaner =>
      rw [isPlace] at free about may
      cases cleaner with
      | joiner => exact free about
      | reaper flags =>
          obtain rfl := Option.some_inj.mp about
          obtain ⟨target, isTarget, isUnmarked⟩ := unmarked
          cases isUnmarked.symm.trans (may.2.of_found isTarget).2
  | terminate terminated =>
      rw [isPlace] at free about
      obtain rfl := Option.some_inj.mp about
      refine free ?_
      rw [ThreadsState.claims, hasEnded_iff.mpr ended]
      rfl
  | remove joined =>
      rw [isPlace] at free about
      exact free about
  | detach detached =>
      rw [isPlace] at free about
      exact free about
  | detached detached =>
      rw [isPlace] at free about
      exact free about
  | ended terminated =>
      rw [isPlace] at free about
      exact free about
  | outside =>
      rw [isPlace] at about
      cases about
  | delete object =>
      rw [isPlace] at about
      cases about
  | collect flags =>
      rw [isPlace] at about
      cases about
  | pop flags =>
      rw [isPlace] at about
      cases about

theorem Claims.noneAboutMarked (life : Life state) (claims : Claims state)
    (isReaper : state.reaper = some index) {thread : Nat}
    (marked : state.Has thread fun target => target.marked = true) {other : Nat} {caller : RtosThread}
    (isOther : other ≠ index) (isCaller : state.threads[other]? = some caller)
    (liveCaller : caller.state ≠ .terminated) : caller.place.about ≠ some thread := by
  intro about
  obtain ⟨target, isTarget, isMarked⟩ := marked
  have fits := claims.fits other caller isCaller liveCaller
  have may := (life.threads other caller isCaller).place
  have not_ : ¬ state.Has thread fun target => target.marked = false := by
    intro unmarked
    cases isMarked.symm.trans (unmarked.of_found isTarget)
  cases isPlace : caller.place with
  | wait object wish timeout place after =>
      rw [isPlace] at fits about
      cases after with
      | join joined =>
          obtain rfl := Option.some_inj.mp about
          exact not_ (Has.imp fits fun _ holds => holds.2.2)
      | leave => cases about
      | reap => cases about
  | clean cleaned part cleaner =>
      rw [isPlace] at fits about may
      obtain rfl := Option.some_inj.mp about
      cases cleaner with
      | joiner => exact not_ (fits.1.imp fun _ holds => holds.2)
      | reaper flags =>
          obtain rfl := Option.some_inj.mp (may.1.symm.trans isReaper)
          exact isOther rfl
  | terminate terminated =>
      rw [isPlace] at fits about
      obtain rfl := Option.some_inj.mp about
      exact not_ fits
  | remove joined =>
      rw [isPlace] at fits about
      obtain rfl := Option.some_inj.mp about
      exact not_ (Has.imp fits fun _ holds => holds.2.2)
  | detach detached =>
      rw [isPlace] at fits about
      obtain rfl := Option.some_inj.mp about
      exact not_ (Has.imp fits fun _ holds => holds.2)
  | detached detached =>
      rw [isPlace] at fits about
      obtain rfl := Option.some_inj.mp about
      exact not_ fits
  | ended terminated =>
      rw [isPlace] at fits about
      obtain rfl := Option.some_inj.mp about
      exact not_ (Has.imp fits fun _ holds => holds.1)
  | outside =>
      rw [isPlace] at about
      cases about
  | delete object =>
      rw [isPlace] at about
      cases about
  | collect flags =>
      rw [isPlace] at about
      cases about
  | pop flags =>
      rw [isPlace] at about
      cases about

theorem unharmed_of_change {target : Nat} (threads : next.threads = (state.change target update).threads)
    (reclaims : ∀ thread, place.cleans = some thread → thread ∈ next.reclaims.map Reclaim.thread →
      thread ∈ state.reclaims.map Reclaim.thread)
    (reapList : ∀ thread ∈ next.reapList, thread ∈ state.reapList)
    (harmless : place.about = some target → Holds state next place target ∧
      (place.terminates = some target → next.hasEnded target = state.hasEnded target)) :
    Unharmed state next place := by
  have same : ∀ thread, thread ≠ target → next.threads[thread]? = state.threads[thread]? := by
    intro thread different
    rw [threads]
    exact getElem?_change_ne different
  refine ⟨fun thread about => ?_, fun thread terminates => ?_, reclaims,
    fun thread _ _ _ => reapList thread⟩
  · by_cases isIt : thread = target
    · subst isIt
      exact (harmless about).1
    · exact holds_of_getElem? (same thread isIt)
  · have about : place.about = some thread := by
      cases place with
      | terminate other => exact terminates
      | _ => cases terminates
    by_cases isIt : thread = target
    · subst isIt
      exact (harmless about).2 terminates
    · exact hasEnded_of_getElem? (congrArg _ (same thread isIt))

def RtosThread.endAs (joinable : Bool) (thread : RtosThread) : RtosThread :=
  if joinable then thread.endTask else thread.endTask.markReap

theorem RtosThread.state_endAs (joinable : Bool) (thread : RtosThread) :
    (thread.endAs joinable).state = .terminated := by
  cases joinable with
  | _ => rfl

theorem RtosThread.registered_endAs (joinable : Bool) (thread : RtosThread) :
    (thread.endAs joinable).registered = thread.registered := by
  cases joinable with
  | _ => rfl

theorem RtosThread.place_endAs (joinable : Bool) (thread : RtosThread) :
    (thread.endAs joinable).place = thread.place := by
  cases joinable with
  | _ => rfl

theorem endTask_eq (state : ThreadsState) (index : Nat) (thread : RtosThread) (wakeStatus : Result) :
    ∃ words aborted, state.endTask index thread wakeStatus =
      { state.change index (RtosThread.endAs thread.joinable) with words := words, aborted := aborted } := by
  have sets : ∀ (middle : ThreadsState) object flags, ∃ words aborted,
      middle.setOrAbort object flags wakeStatus =
        { middle with words := words, aborted := aborted } := by
    intro middle object flags
    rw [setOrAbort]
    split
    · exact ⟨_, _, rfl⟩
    · exact ⟨_, _, rfl⟩
  rw [ThreadsState.endTask]
  cases thread.joinable with
  | true => exact sets _ _ _
  | false =>
      have both : (state.change index RtosThread.endTask).change index RtosThread.markReap =
          state.change index (RtosThread.endAs false) := by
        simp only [ThreadsState.change, List.modify_modify_eq]
        rfl
      rw [if_neg Bool.false_ne_true, both, kickReaper]
      split
      · exact ⟨_, _, rfl⟩
      · split
        · exact sets _ _ _
        · exact ⟨_, _, rfl⟩

theorem Claims.endTask (life : Life state) (claims : Claims state)
    (found : state.threads[index]? = some own) (live : own.state ≠ .terminated)
    (unseen : ∀ (other : Nat) (caller : RtosThread), other ≠ index → state.threads[other]? = some caller →
      caller.state ≠ .terminated → caller.place.looksAt ≠ some index)
    (threads : next.threads = (state.change index (RtosThread.endAs own.joinable)).threads)
    (reclaims : next.reclaims = state.reclaims) (reapList : next.reapList = state.reapList) :
    Claims next := by
  refine claims.change threads (place_endAs _) (fun thread _ ends => (ends (state_endAs _ _)).elim)
    fun other caller isCaller liveCaller stays => ?_
  have isOther : other ≠ index := fun isIt => stays isIt (state_endAs _ _)
  have notSeen := unseen other caller isOther isCaller liveCaller
  refine unharmed_of_change threads (fun _ _ => reclaims ▸ id) (fun _ => reapList ▸ id) fun about => ?_
  have isAfter : next.threads[index]? = some (own.endAs own.joinable) := by
    rw [threads]
    exact getElem?_change_self found
  cases isJoinable : own.joinable with
  | true =>
      rw [isJoinable] at isAfter
      refine ⟨fun target isTarget => ?_, fun terminates => ?_⟩
      · obtain rfl := Option.some_inj.mp (found.symm.trans isTarget)
        exact ⟨_, isAfter, fun _ => id, fun _ registered _ => registered, id, fun _ => rfl⟩
      · refine absurd ?_ notSeen
        cases isPlace : caller.place with
        | terminate thread =>
            rw [isPlace] at terminates
            exact terminates
        | _ =>
            rw [isPlace] at terminates
            cases terminates
  | false =>
      exfalso
      have fits := claims.fits other caller isCaller liveCaller
      have may := (life.threads other caller isCaller).place
      have not_ : ¬ state.Has index fun target => target.joinable = true := by
        intro joins
        cases isJoinable.symm.trans (joins.of_found found)
      cases isPlace : caller.place with
      | wait object wish timeout place after =>
          rw [isPlace] at fits about
          cases after with
          | join joined =>
              obtain rfl := Option.some_inj.mp about
              exact not_ (Has.imp fits fun _ holds => holds.1)
          | leave => cases about
          | reap => cases about
      | clean cleaned part cleaner =>
          rw [isPlace] at fits about may
          obtain rfl := Option.some_inj.mp about
          cases cleaner with
          | joiner => exact not_ (fits.1.imp fun _ holds => holds.1)
          | reaper flags => exact live (may.2.of_found found).1.1
      | terminate terminated =>
          rw [isPlace] at notSeen about
          exact notSeen about
      | remove joined =>
          rw [isPlace] at fits about
          obtain rfl := Option.some_inj.mp about
          exact not_ (Has.imp fits fun _ holds => holds.1)
      | detach detached =>
          rw [isPlace] at fits about
          obtain rfl := Option.some_inj.mp about
          exact not_ (Has.imp fits fun _ holds => holds.1)
      | detached detached =>
          rw [isPlace] at notSeen about
          exact notSeen about
      | ended terminated =>
          rw [isPlace] at fits about
          obtain rfl := Option.some_inj.mp about
          exact live (Has.of_found fits found).2
      | outside =>
          rw [isPlace] at about
          cases about
      | delete object =>
          rw [isPlace] at about
          cases about
      | collect flags =>
          rw [isPlace] at about
          cases about
      | pop flags =>
          rw [isPlace] at about
          cases about

theorem claims_reaperWait (state : ThreadsState) (index : Nat) :
    state.claims (reaperWait index) = none ∧ Fits state (reaperWait index) := ⟨rfl, trivial⟩

theorem unharmed_of_append {fresh : RtosThread} (threads : next.threads = state.threads ++ [fresh])
    (reclaims : next.reclaims = state.reclaims) (reapList : next.reapList = state.reapList)
    (fits : Fits state place) : Unharmed state next place := by
  have keeps : ∀ {thread : Nat} {target : RtosThread}, state.threads[thread]? = some target →
      next.threads[thread]? = some target := by
    intro thread target found
    rw [threads, List.getElem?_append_left (List.getElem?_eq_some_iff.mp found).1]
    exact found
  refine ⟨fun thread about target isTarget =>
    ⟨target, keeps isTarget, fun _ => id, fun _ registered _ => registered, id, id⟩, fun thread terminates => ?_,
    fun _ _ => reclaims ▸ id, fun _ _ _ _ => reapList ▸ id⟩
  cases place with
  | terminate target =>
      obtain rfl := Option.some_inj.mp terminates
      obtain ⟨target, isTarget, _⟩ := fits
      refine hasEnded_of_getElem? ?_
      rw [keeps isTarget, isTarget]
  | _ => cases terminates

theorem getElem?_append {fresh after : RtosThread} {other : Nat}
    (threads : next.threads = state.threads ++ [fresh]) (found : next.threads[other]? = some after) :
    state.threads[other]? = some after ∨ after = fresh := by
  rw [threads] at found
  rcases Nat.lt_or_ge other state.threads.length with isOld | atLeast
  · rw [List.getElem?_append_left isOld] at found
    exact Or.inl found
  · exact Or.inr (List.mem_singleton.mp (List.mem_of_getElem?
      ((List.getElem?_append_right atLeast).symm.trans found)))

theorem Claims.append (claims : Claims state) {fresh : RtosThread}
    (threads : next.threads = state.threads ++ [fresh]) (reclaims : next.reclaims = state.reclaims)
    (reapList : next.reapList = state.reapList)
    (none_ : next.claims fresh.place = none ∧ Fits next fresh.place) : Claims next := by
  refine claims.kept fun other after found live => ?_
  rcases getElem?_append threads found with isOld | rfl
  · exact Or.inr ⟨after, isOld, live, rfl,
      unharmed_of_append threads reclaims reapList (claims.fits other after isOld live)⟩
  · exact Or.inl none_

theorem Free.append (claims : Claims state) {thread : Nat} (free : Free state index thread)
    {fresh : RtosThread} (threads : next.threads = state.threads ++ [fresh])
    (reclaims : next.reclaims = state.reclaims) (reapList : next.reapList = state.reapList)
    (none_ : next.claims fresh.place = none) : Free next index thread := by
  intro other caller isOther isCaller live claimed
  rcases getElem?_append threads isCaller with isOld | rfl
  · refine free other caller isOther isOld live ?_
    rw [← (unharmed_of_append threads reclaims reapList (claims.fits other caller isOld live)).claims]
    exact claimed
  · cases none_.symm.trans claimed

theorem Records.congr (records : Records state) (later : Later state next)
    (reclaims : next.reclaims = state.reclaims) (reapList : next.reapList = state.reapList)
    (released : next.released = state.released)
    (left : ∀ (other : Nat) (after : RtosThread), next.threads[other]? = some after →
      after.registered = false →
      ∃ thread, state.threads[other]? = some thread ∧ thread.registered = false)
    (cleaned : ∀ thread, Cleaned state thread → Cleaned next thread)
    (reaper : ∀ reaper, next.reaper = some reaper → next.Has reaper fun own =>
      own.state ≠ .terminated ∧ (own.place.takes = true ∨ state.reapList = [])) :
    Records next := by
  have idle : next.reaper = none → state.reapList = [] := by
    intro none_
    cases isReaper : state.reaper with
    | none => exact records.idle isReaper
    | some reaper => cases none_.symm.trans (later.reaper reaper isReaper)
  rw [← reapList] at reaper idle
  refine ⟨?_, ?_, ?_, ?_, ?_, ?_, ?_, ?_, reaper, idle⟩
  · rw [reclaims]
    exact records.once
  · rw [reclaims]
    exact records.alone
  · rw [reclaims]
    exact records.decided
  · rw [reclaims]
    intro reclaim member
    obtain ⟨gone, reaped⟩ := records.gone reclaim member
    exact ⟨later.has lasts_gone gone, fun byReaper => later.has lasts_reaped (reaped byReaper)⟩
  · rw [reapList]
    exact records.nodup
  · rw [reapList, reclaims]
    exact records.pending
  · rw [released, reclaims]
    exact records.released
  · rw [reclaims, reapList]
    intro other after found unregistered
    obtain ⟨thread, isThread, was⟩ := left other after found unregistered
    rcases records.left other thread isThread was with done | cleans | listed
    · exact Or.inl done
    · exact Or.inr (Or.inl (cleaned other cleans))
    · exact Or.inr (Or.inr listed)

end Claims

end PicoToolkit
