import PicoToolkit.Threads.Joining

/-!
`thrd_detach` sets no flag of `struct thrd`: the reaper finds nothing to reclaim and `thrd_join` nothing to
refuse.  Nor does a first call return, for `thrds_reaper_init` detaches the reaper from within the
`call_once` that the call for the reaper waits for.
-/

namespace PicoToolkit

open Transition

variable {count : Nat} {state next : Joining count} {self target : Fin count}

/-- The reaper is blocked in its wait, and no exit of a thread is on the way to wake anybody. -/
def ReaperIdle (state : Joining count) : Prop :=
  ∀ self, (∀ place, state.place self = .reap place → place = .wait .blocked) ∧
    ∀ place, state.place self ≠ .finish place

def Refuses (state : Joining count) (target : Fin count) : Prop :=
  (state.thrds target).detached ∨ (state.thrds target).joiner ≠ none

structure DetachReclaims (state : Joining count) : Prop where
  reclaimed : ∀ target, state.detached target → (state.thrds target).terminated → ReaperIdle state →
    (state.thrds target).linked = false ∧ (state.thrds target).released = 1
  refused : ∀ target, state.detached target → Refuses state target

def NotJoined (target : Fin count) : JoiningAction count → Prop
  | .call _ (.thrdJoin aim) => aim ≠ target
  | _ => True

/-- The thread is in the list and not released, nobody joins it, and no thread is marked as detached. -/
structure Unjoined (target : Fin count) (state : Joining count) : Prop where
  marked : ∀ other, (state.thrds other).detached = false
  nobody : ∀ self place, state.place self ≠ .join target place
  stays : state.place target ≠ .unborn → (state.thrds target).linked ∧
    (state.thrds target).released = 0 ∧ (state.thrds target).joiner = none

namespace Unjoined

theorem change (unjoined : Unjoined target state) {place : ThrdPlace count}
    (isPlace : next.place = Function.update state.place self place)
    (wasBorn : state.place self ≠ .unborn) (notJoin : ∀ number, place ≠ .join target number)
    (marked : ∀ other, (next.thrds other).detached = (state.thrds other).detached)
    (linked : (next.thrds target).linked = (state.thrds target).linked)
    (released : (next.thrds target).released = (state.thrds target).released)
    (joiner : (next.thrds target).joiner = (state.thrds target).joiner) : Unjoined target next := by
  refine ⟨fun other => (marked other).trans (unjoined.marked other), fun other number => ?_, fun isBorn => ?_⟩
  · rw [isPlace]
    by_cases isSelf : other = self
    · rw [isSelf, Function.update_self]
      exact notJoin number
    · rw [Function.update_of_ne isSelf]
      exact unjoined.nobody other number
  · rw [linked, released, joiner]
    refine unjoined.stays ?_
    rw [isPlace] at isBorn
    by_cases isSelf : target = self
    · exact isSelf ▸ wasBorn
    · rw [Function.update_of_ne isSelf] at isBorn
      exact isBorn

theorem goes (unjoined : Unjoined target state) {place : ThrdPlace count}
    (isPlace : next.place = Function.update state.place self place) (thrds : next.thrds = state.thrds)
    (wasBorn : state.place self ≠ .unborn) (notJoin : ∀ number, place ≠ .join target number) :
    Unjoined target next :=
  unjoined.change isPlace wasBorn notJoin (fun _ => thrds ▸ rfl) (thrds ▸ rfl) (thrds ▸ rfl) (thrds ▸ rfl)

theorem elsewhere (unjoined : Unjoined target state) {aim : Fin count} {place : ThrdPlace count}
    {thrd : Thrd count} (isPlace : next.place = Function.update state.place self place)
    (thrds : next.thrds = Function.update state.thrds aim thrd) (different : aim ≠ target)
    (marked : thrd.detached = (state.thrds aim).detached) (wasBorn : state.place self ≠ .unborn)
    (notJoin : ∀ number, place ≠ .join target number) : Unjoined target next := by
  have same : next.thrds target = state.thrds target := by
    rw [thrds, Function.update_of_ne different.symm]
  refine unjoined.change isPlace wasBorn notJoin (fun other => ?_) (same ▸ rfl) (same ▸ rfl) (same ▸ rfl)
  rw [thrds]
  by_cases isAim : other = aim
  · rw [isAim, Function.update_self]
    exact marked
  · rw [Function.update_of_ne isAim]

theorem advanceCnd (unjoined : Unjoined target state) {cnd : Cnd count} {place : CndPlace}
    {resume : CndPlace ⊕ ThrdStatus → ThrdPlace count} (wasBorn : state.place self ≠ .unborn)
    (notJoin : ∀ stage number, resume stage ≠ .join target number)
    (moved : state.advanceCnd self cnd resume place = some next) : Unjoined target next := by
  cases place with
  | sequence | unlock _ | futexWait _ =>
    cases moved
    exact unjoined.goes rfl rfl wasBorn (notJoin _)
  | blocked => cases moved
  | lock status =>
    simp only [Joining.advanceCnd] at moved
    split at moved
    · cases moved
      exact unjoined.goes rfl rfl wasBorn (notJoin _)
    · split at moved
      · cases moved
        exact unjoined.goes rfl rfl wasBorn (notJoin _)
      · cases moved

theorem resumeJoin_ne {aim : Fin count} (different : aim ≠ target) (stage : CndPlace ⊕ ThrdStatus)
    (number : JoinPlace) : Joining.resumeJoin aim stage ≠ .join target number := by
  unfold Joining.resumeJoin
  split
  all_goals
    intro same
    cases same
    exact different rfl

theorem resumeReap_ne (stage : CndPlace ⊕ ThrdStatus) (number : JoinPlace) :
    Joining.resumeReap stage ≠ .join target number := by
  unfold Joining.resumeReap
  split
  all_goals simp

theorem advanceJoin (unjoined : Unjoined target state) {aim : Fin count} {place : JoinPlace}
    (isAt : state.place self = .join aim place) (moved : state.advanceJoin self aim place = some next) :
    Unjoined target next := by
  have different : aim ≠ target := fun same => unjoined.nobody self place (same ▸ isAt)
  have wasBorn : state.place self ≠ .unborn := by simp [isAt]
  have notJoin (after number : JoinPlace) : (.join aim after : ThrdPlace count) ≠ .join target number := by
    intro same
    cases same
    exact different rfl
  cases place with
  | detached | joiner | terminated | unlock _ | result _ =>
    cases moved
    exact unjoined.goes rfl rfl wasBorn (notJoin _)
  | lock =>
    simp only [Joining.advanceJoin] at moved
    split at moved
    · cases moved
      exact unjoined.goes rfl rfl wasBorn (notJoin _)
    · split at moved
      · cases moved
        exact unjoined.goes rfl rfl wasBorn (notJoin _)
      · cases moved
  | refuse =>
    simp only [Joining.advanceJoin] at moved
    split at moved
    · cases moved
      exact unjoined.goes rfl rfl wasBorn (by simp)
    · cases moved
      exact unjoined.goes rfl rfl wasBorn (notJoin _)
  | mark | remove _ =>
    cases moved
    exact unjoined.elsewhere rfl rfl different rfl wasBorn (notJoin _)
  | release status result =>
    cases moved
    exact unjoined.elsewhere rfl rfl different rfl wasBorn (by simp)
  | wait place => exact unjoined.advanceCnd wasBorn (resumeJoin_ne different) moved
  | aborted => cases moved

theorem advanceDetach (unjoined : Unjoined target state) {place : DetachPlace} {targets : List (Fin count)}
    (isAt : state.place self = .detach place targets)
    (moved : state.advanceDetach self targets place = some next) : Unjoined target next := by
  have goes {after : ThrdPlace count} (isPlace : next.place = Function.update state.place self after)
      (thrds : next.thrds = state.thrds) (notJoin : ∀ number, after ≠ .join target number) :
      Unjoined target next := unjoined.goes isPlace thrds (by simp [isAt]) notJoin
  cases place with
  | load | init | store | wake =>
    cases moved
    exact goes rfl rfl (by simp)
  | create => cases moved
  | claim | exchange =>
    simp only [Joining.advanceDetach] at moved
    split at moved
    all_goals
      cases moved
      exact goes rfl rfl (by simp)
  | wait value =>
    simp only [Joining.advanceDetach] at moved
    split at moved
    · cases moved
    · cases moved
      exact goes rfl rfl (by simp)
  | setFlags =>
    cases targets with
    | nil => cases moved
    | cons first rest =>
      cases moved
      exact goes rfl rfl (by intro _; split <;> simp)

theorem advanceReap (unjoined : Unjoined target state) {place : ReapPlace}
    (isAt : state.place self = .reap place) (moved : state.advanceReap self place = some next) :
    Unjoined target next := by
  have wasBorn : state.place self ≠ .unborn := by simp [isAt]
  cases place with
  | lock =>
    simp only [Joining.advanceReap] at moved
    split at moved
    · cases moved
      exact unjoined.goes rfl rfl wasBorn (by simp)
    · cases moved
  | wait place => exact unjoined.advanceCnd wasBorn resumeReap_ne moved
  | scan index =>
    simp only [Joining.advanceReap] at moved
    split at moved
    case isTrue inside =>
      rw [if_neg fun all => absurd all.2.1 (by simp [unjoined.marked])] at moved
      cases moved
      exact unjoined.goes rfl rfl wasBorn (by simp)
    case isFalse =>
      cases moved
      exact unjoined.goes rfl rfl wasBorn (by simp)
  | aborted => cases moved

theorem woken (unjoined : Unjoined target state) (cnd : Cnd count) :
    Unjoined target { state with place := fun other => (state.place other).woken cnd } := by
  refine ⟨unjoined.marked, fun self number isAfter => ?_, fun isBorn => unjoined.stays fun unborn => ?_⟩
  · rcases (state.place self).woken_cases cnd with ⟨_, _, isAt, after, _⟩ | ⟨_, _, after⟩ | same
    · cases after.symm.trans isAfter
      exact unjoined.nobody self _ isAt
    · cases after.symm.trans isAfter
    · exact unjoined.nobody self number (same.symm.trans isAfter)
  · simp only [unborn] at isBorn
    exact isBorn rfl

theorem advanceFinish (unjoined : Unjoined target state) {place : FinishPlace count}
    (isAt : state.place self = .finish place) (moved : state.advanceFinish self place = some next) :
    Unjoined target next := by
  have wasBorn : state.place self ≠ .unborn := by simp [isAt]
  have updated {thrd : Thrd count} {after : ThrdPlace count}
      (isNext : next = (state.setThrd self thrd).goes self after)
      (same : thrd.detached = (state.thrds self).detached ∧ thrd.linked = (state.thrds self).linked ∧
        thrd.released = (state.thrds self).released ∧ thrd.joiner = (state.thrds self).joiner)
      (notJoin : ∀ number, after ≠ .join target number) : Unjoined target next := by
    have all (other : Fin count) : (next.thrds other).detached = (state.thrds other).detached ∧
        (next.thrds other).linked = (state.thrds other).linked ∧
        (next.thrds other).released = (state.thrds other).released ∧
        (next.thrds other).joiner = (state.thrds other).joiner := by
      subst isNext
      by_cases isSelf : other = self
      · subst isSelf
        simp only [Joining.goes, Joining.setThrd, Function.update_self]
        exact same
      · simp only [Joining.goes, Joining.setThrd, Function.update_of_ne isSelf, and_self]
    exact unjoined.change (isNext ▸ rfl) wasBorn notJoin (fun other => (all other).1) (all target).2.1
      (all target).2.2.1 (all target).2.2.2
  cases place with
  | ret result =>
    cases moved
    exact updated rfl ⟨rfl, rfl, rfl, rfl⟩ (by simp)
  | terminated =>
    cases moved
    exact updated rfl ⟨rfl, rfl, rfl, rfl⟩ (by simp)
  | detached | sequence cnd =>
    cases moved
    exact unjoined.goes rfl rfl wasBorn (by simp)
  | wake cnd =>
    cases moved
    have still : (state.place self).woken cnd = .finish (.wake cnd) := by
      rw [isAt]
      rfl
    exact (unjoined.woken cnd).goes rfl rfl (by simp [still]) (by simp)

theorem broken (unjoined : Unjoined target state) {status : Result}
    (moved : state.broken self status = some next) : Unjoined target next := by
  have goes {before after : ThrdPlace count} (isAt : state.place self = before) (wasBorn : before ≠ .unborn)
      (isNext : next = state.goes self after) (notJoin : ∀ number, after ≠ .join target number) :
      Unjoined target next := by
    subst isNext
    exact unjoined.goes rfl rfl (isAt ▸ wasBorn) notJoin
  have joins {aim : Fin count} {place : JoinPlace} (isAt : state.place self = .join aim place)
      (after number : JoinPlace) : (.join aim after : ThrdPlace count) ≠ .join target number := by
    intro same
    cases same
    exact unjoined.nobody self place isAt
  unfold Joining.broken at moved
  split at moved
  case h_1 aim isAt =>
    cases moved
    exact goes isAt (by simp) rfl (joins isAt _)
  case h_2 isAt =>
    cases moved
    exact goes isAt (by simp) rfl (by simp)
  case h_3 aim result isAt =>
    split at moved
    · cases moved
      exact goes isAt (by simp) rfl (resumeJoin_ne (fun same => unjoined.nobody self _ (same ▸ isAt)) _)
    · cases moved
  case h_4 result isAt =>
    split at moved
    · cases moved
      exact goes isAt (by simp) rfl (resumeReap_ne _)
    · cases moved
  case h_5 aim isAt =>
    split at moved
    · cases moved
      exact goes isAt (by simp) rfl (joins isAt _)
    · cases moved
  case h_6 isAt =>
    split at moved
    · cases moved
      exact goes isAt (by simp) rfl (by simp)
    · cases moved
  case h_7 isAt =>
    cases moved
    exact goes isAt (by simp) rfl (by simp)
  case h_8 => cases moved

theorem created (unjoined : Unjoined target state) {aim : Fin count} {place : ThrdPlace count}
    (notJoin : ∀ number, place ≠ .join target number) : Unjoined target (state.created aim place) := by
  have thrds (other : Fin count) : (state.created aim place).thrds other =
      if other = aim then { linked := true } else state.thrds other := by
    simp only [Joining.created, Joining.goes, Joining.setThrd, Function.update_apply]
  refine ⟨fun other => ?_, fun other number => ?_, fun isBorn => ?_⟩
  · rw [thrds]
    split
    · rfl
    · exact unjoined.marked other
  · by_cases isAim : other = aim
    · rw [isAim, show (state.created aim place).place aim = place from Function.update_self ..]
      exact notJoin number
    · rw [show (state.created aim place).place other = state.place other from Function.update_of_ne isAim ..]
      exact unjoined.nobody other number
  · rw [thrds]
    split
    · exact ⟨rfl, rfl, rfl⟩
    case isFalse isAim =>
      refine unjoined.stays ?_
      rwa [show (state.created aim place).place target = state.place target from
        Function.update_of_ne isAim ..] at isBorn

theorem step (unjoined : Unjoined target state) {action : JoiningAction count}
    (notJoined : NotJoined target action) (moved : state.step action = some next) : Unjoined target next := by
  cases action with
  | create thread aim =>
    simp only [Joining.step] at moved
    split at moved
    case isFalse => cases moved
    case isTrue =>
      split at moved
      case h_1 =>
        cases moved
        exact unjoined.created (by simp)
      case h_2 targets isAt =>
        cases moved
        refine (unjoined.created (by simp)).goes rfl rfl ?_ (by simp)
        by_cases isAim : thread = aim
        · rw [isAim, show (state.created aim (.reap .lock)).place aim = .reap .lock from
            Function.update_self ..]
          simp
        · rw [show (state.created aim (.reap .lock)).place thread = state.place thread from
            Function.update_of_ne isAim .., isAt]
          simp
      case h_3 => cases moved
  | call thread call =>
    simp only [Joining.step] at moved
    split at moved
    case isFalse => cases moved
    case isTrue running =>
      have wasBorn : state.place thread ≠ .unborn := by simp [running]
      cases call with
      | thrdJoin aim =>
        simp only [Joining.call] at moved
        split at moved
        · cases moved
          refine unjoined.goes rfl rfl wasBorn fun number same => ?_
          cases same
          exact notJoined rfl
        · cases moved
      | thrdDetach aim =>
        simp only [Joining.call] at moved
        split at moved
        · cases moved
          exact unjoined.goes rfl rfl wasBorn (by simp)
        · cases moved
      | thrdExit result =>
        cases moved
        exact unjoined.goes rfl rfl wasBorn (by simp)
  | act thread =>
    simp only [Joining.step, Joining.advance] at moved
    split at moved
    case h_1 | h_2 | h_3 => cases moved
    case h_4 aim place isAt => exact unjoined.advanceJoin isAt moved
    case h_5 place targets isAt => exact unjoined.advanceDetach isAt moved
    case h_6 place isAt => exact unjoined.advanceFinish isAt moved
    case h_7 place isAt => exact unjoined.advanceReap isAt moved
  | returns thread status => exact unjoined.broken moved

theorem of_initial (isInitial : (joiningSystem count).initial state) : Unjoined target state := by
  obtain ⟨threads, _⟩ := isInitial
  refine ⟨fun other => ?_, fun self number isAt => ?_, fun isBorn => ?_⟩
  · rcases threads other with ⟨_, isThrd⟩ | ⟨_, isThrd⟩
    all_goals rw [isThrd]
  · rcases threads self with ⟨place, _⟩ | ⟨place, _⟩
    all_goals
      rw [isAt] at place
      simp at place
  · rcases threads target with ⟨isAt, _⟩ | ⟨_, isThrd⟩
    · exact absurd isAt isBorn
    · rw [isThrd]
      exact ⟨rfl, rfl, rfl⟩

end Unjoined

instance (target : Fin count) (action : JoiningAction count) : Decidable (NotJoined target action) :=
  match action with
  | .call _ (.thrdJoin aim) => inferInstanceAs (Decidable (aim ≠ target))
  | .call _ (.thrdDetach _) | .call _ (.thrdExit _) => inferInstanceAs (Decidable True)
  | .create .. | .act .. | .returns .. => inferInstanceAs (Decidable True)

/-- A thread that no join is called for is never reclaimed and never refused to a join, whatever is
detached. -/
theorem unjoined_stays (reached : (joiningSystem count).Guarded (fun _ => NotJoined target) state)
    (isBorn : state.place target ≠ .unborn) :
    (state.thrds target).linked ∧ (state.thrds target).released = 0 ∧ ¬ Refuses state target := by
  have unjoined : Unjoined target state := by
    refine reached.invariant (fun state => Unjoined.of_initial) ?_
    exact fun state action next unjoined notJoined moved => unjoined.step notJoined moved
  obtain ⟨linked, released, joiner⟩ := unjoined.stays isBorn
  refine ⟨linked, released, ?_⟩
  rw [Refuses, unjoined.marked, joiner]
  simp

def twoRunning : Joining 3 where
  thrds thread := { linked := decide (thread ≠ 2) }
  place thread := if thread = 2 then .unborn else .running

theorem twoRunning_initial : (joiningSystem 3).initial twoRunning := by
  refine ⟨fun thread => ?_, rfl, rfl, fun _ => rfl, rfl⟩
  by_cases isThird : thread = 2
  · exact Or.inl ⟨if_pos isThird, by simp [twoRunning, isThird]⟩
  · exact Or.inr ⟨by simp [twoRunning, isThird], by simp [twoRunning, isThird]⟩

def detachRun : List (JoiningAction 3) :=
  List.flatten [[.call 0 (.thrdDetach 1)], List.replicate 3 (.act 0), [.create 0 2],
    List.replicate 3 (.act 0), List.replicate 4 (.act 2), [.call 1 (.thrdExit 0)],
    List.replicate 5 (.act 1)]

theorem unjoined_stays_detach : ∃ state : Joining 3, state.place 0 = .detach (.wait 1) [2, 1] ∧
    state.place 1 = .gone ∧ state.place 2 = .reap (.wait .blocked) ∧
    (state.thrds 1).linked ∧ (state.thrds 1).released = 0 ∧ ¬ Refuses state 1 := by
  obtain ⟨state, reached, first, second, third⟩ := @System.exists_of_run _ _ (joiningSystem 3)
    (fun _ => NotJoined 1) _ twoRunning twoRunning_initial detachRun
    (fun state => state.place 0 = .detach (.wait 1) [2, 1] ∧ state.place 1 = .gone ∧
      state.place 2 = .reap (.wait .blocked))
    (fun _ => inferInstanceAs (Decidable (_ ∧ _ ∧ _))) (by decide)
  exact ⟨state, first, second, third, unjoined_stays reached (by simp [second])⟩

def DetachPlace.early : DetachPlace → Bool
  | .setFlags | .store | .wake => false
  | _ => true

def ThrdPlace.early : ThrdPlace count → Prop
  | .detach place _ => place.early
  | _ => True

structure Hanging (state : Joining count) : Prop where
  flag : state.reaperInitFlag ≠ 2
  places : ∀ self, (state.place self).early
  none : ∀ thread, state.detached thread = false

namespace Hanging

theorem goes (hanging : Hanging state) {place : ThrdPlace count}
    (isPlace : next.place = Function.update state.place self place)
    (flag : next.reaperInitFlag = state.reaperInitFlag) (detached : next.detached = state.detached)
    (early : place.early) : Hanging next := by
  refine ⟨flag ▸ hanging.flag, fun other => ?_, fun thread => detached ▸ hanging.none thread⟩
  rw [isPlace]
  by_cases isSelf : other = self
  · rw [isSelf, Function.update_self]
    exact early
  · rw [Function.update_of_ne isSelf]
    exact hanging.places other

theorem advanceCnd (hanging : Hanging state) {cnd : Cnd count} {place : CndPlace}
    {resume : CndPlace ⊕ ThrdStatus → ThrdPlace count} (early : ∀ stage, (resume stage).early)
    (moved : state.advanceCnd self cnd resume place = some next) : Hanging next := by
  cases place with
  | sequence | unlock _ | futexWait _ =>
    cases moved
    exact hanging.goes rfl rfl rfl (early _)
  | blocked => cases moved
  | lock status =>
    simp only [Joining.advanceCnd] at moved
    split at moved
    · cases moved
      exact hanging.goes rfl rfl rfl (early _)
    · split at moved
      · cases moved
        exact hanging.goes rfl rfl rfl (early _)
      · cases moved

theorem resumeJoin_early (target : Fin count) (stage : CndPlace ⊕ ThrdStatus) :
    (Joining.resumeJoin target stage).early := by
  unfold Joining.resumeJoin
  split
  all_goals trivial

theorem resumeReap_early (stage : CndPlace ⊕ ThrdStatus) :
    (@Joining.resumeReap count stage).early := by
  unfold Joining.resumeReap
  split
  all_goals trivial

theorem advanceJoin (hanging : Hanging state) {place : JoinPlace}
    (moved : state.advanceJoin self target place = some next) : Hanging next := by
  cases place with
  | detached | joiner | terminated | unlock _ | result _ | mark | remove _ | release _ _ =>
    cases moved
    exact hanging.goes rfl rfl rfl trivial
  | lock =>
    simp only [Joining.advanceJoin] at moved
    split at moved
    · cases moved
      exact hanging.goes rfl rfl rfl trivial
    · split at moved
      · cases moved
        exact hanging.goes rfl rfl rfl trivial
      · cases moved
  | refuse =>
    simp only [Joining.advanceJoin] at moved
    split at moved
    all_goals
      cases moved
      exact hanging.goes rfl rfl rfl trivial
  | wait place => exact hanging.advanceCnd (resumeJoin_early target) moved
  | aborted => cases moved

theorem advanceDetach (hanging : Hanging state) {place : DetachPlace} {targets : List (Fin count)}
    (isAt : state.place self = .detach place targets)
    (moved : state.advanceDetach self targets place = some next) : Hanging next := by
  have early := hanging.places self
  rw [isAt] at early
  cases place with
  | load =>
    cases moved
    rw [if_neg hanging.flag]
    exact hanging.goes rfl rfl rfl rfl
  | claim =>
    simp only [Joining.advanceDetach] at moved
    split at moved
    · cases moved
      have claimed : Hanging { state with reaperInitFlag := 1 } :=
        ⟨(by decide : (1 : Word) ≠ 2), hanging.places, hanging.none⟩
      exact claimed.goes rfl rfl rfl rfl
    · cases moved
      exact hanging.goes rfl rfl rfl rfl
  | exchange =>
    simp only [Joining.advanceDetach, if_neg hanging.flag] at moved
    cases moved
    exact hanging.goes rfl rfl rfl rfl
  | wait value =>
    simp only [Joining.advanceDetach] at moved
    split at moved
    · cases moved
    · cases moved
      exact hanging.goes rfl rfl rfl rfl
  | init =>
    cases moved
    exact hanging.goes rfl rfl rfl rfl
  | create => cases moved
  | setFlags | store | wake => exact absurd early Bool.false_ne_true

theorem advanceReap (hanging : Hanging state) {place : ReapPlace}
    (moved : state.advanceReap self place = some next) : Hanging next := by
  cases place with
  | lock =>
    simp only [Joining.advanceReap] at moved
    split at moved
    · cases moved
      exact hanging.goes rfl rfl rfl trivial
    · cases moved
  | wait place => exact hanging.advanceCnd resumeReap_early moved
  | scan index =>
    simp only [Joining.advanceReap] at moved
    split at moved
    · split at moved
      all_goals
        cases moved
        exact hanging.goes rfl rfl rfl trivial
    · cases moved
      exact hanging.goes rfl rfl rfl trivial
  | aborted => cases moved

theorem advanceFinish (hanging : Hanging state) {place : FinishPlace count}
    (moved : state.advanceFinish self place = some next) : Hanging next := by
  cases place with
  | ret _ | terminated | detached | sequence _ =>
    cases moved
    exact hanging.goes rfl rfl rfl trivial
  | wake cnd =>
    cases moved
    have woken : Hanging { state with place := fun other => (state.place other).woken cnd } := by
      refine ⟨hanging.flag, fun other => ?_, hanging.none⟩
      simp only
      rcases (state.place other).woken_cases cnd with ⟨_, _, _, after, _⟩ | ⟨_, _, after⟩ | same
      · rw [after]
        trivial
      · rw [after]
        trivial
      · rw [same]
        exact hanging.places other
    exact woken.goes rfl rfl rfl trivial

theorem broken (hanging : Hanging state) {status : Result} (moved : state.broken self status = some next) :
    Hanging next := by
  unfold Joining.broken at moved
  split at moved
  case h_1 | h_2 =>
    cases moved
    exact hanging.goes rfl rfl rfl trivial
  case h_7 =>
    cases moved
    exact hanging.goes rfl rfl rfl rfl
  case h_3 aim result _ =>
    split at moved
    · cases moved
      exact hanging.goes rfl rfl rfl (resumeJoin_early aim _)
    · cases moved
  case h_4 result _ =>
    split at moved
    · cases moved
      exact hanging.goes rfl rfl rfl (resumeReap_early _)
    · cases moved
  case h_5 | h_6 =>
    split at moved
    · cases moved
      exact hanging.goes rfl rfl rfl trivial
    · cases moved
  case h_8 => cases moved

theorem step (hanging : Hanging state) {action : JoiningAction count} (moved : state.step action = some next) :
    Hanging next := by
  cases action with
  | create thread aim =>
    have created (place : ThrdPlace count) (early : place.early) : Hanging (state.created aim place) :=
      hanging.goes rfl rfl rfl early
    simp only [Joining.step] at moved
    split at moved
    case isFalse => cases moved
    case isTrue =>
      split at moved
      case h_1 =>
        cases moved
        exact created .running trivial
      case h_2 =>
        cases moved
        exact (created (.reap .lock) trivial).goes rfl rfl rfl rfl
      case h_3 => cases moved
  | call thread call =>
    simp only [Joining.step] at moved
    split at moved
    case isFalse => cases moved
    case isTrue =>
      cases call with
      | thrdJoin aim =>
        simp only [Joining.call] at moved
        split at moved
        · cases moved
          exact hanging.goes rfl rfl rfl trivial
        · cases moved
      | thrdDetach aim =>
        simp only [Joining.call] at moved
        split at moved
        · cases moved
          exact hanging.goes rfl rfl rfl rfl
        · cases moved
      | thrdExit result =>
        cases moved
        exact hanging.goes rfl rfl rfl trivial
  | act thread =>
    simp only [Joining.step, Joining.advance] at moved
    split at moved
    case h_1 | h_2 | h_3 => cases moved
    case h_4 => exact hanging.advanceJoin moved
    case h_5 isAt => exact hanging.advanceDetach isAt moved
    case h_6 => exact hanging.advanceFinish moved
    case h_7 => exact hanging.advanceReap moved
  | returns thread status => exact hanging.broken moved

end Hanging

theorem Hanging.of_initial (isInitial : (joiningSystem count).initial state) : Hanging state := by
  obtain ⟨threads, _, flag, detached, _⟩ := isInitial
  refine ⟨by rw [flag]; decide, fun self => ?_, detached⟩
  rcases threads self with ⟨isAt, _⟩ | ⟨isAt, _⟩
  · rw [isAt]
    trivial
  · simp only [List.mem_cons, List.not_mem_nil, or_false] at isAt
    rcases isAt with isAt | isAt
    all_goals
      rw [isAt]
      trivial

end PicoToolkit
