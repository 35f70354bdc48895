import PicoToolkit.Threads.Joining

/-!
`thrd_join` reclaims a thread only once it has terminated, and only by a call that succeeds, as long as
its waits do not fail and no two calls join one thread.
-/

namespace PicoToolkit

open Transition

variable {count : Nat}

def JoinPlace.holds : JoinPlace → Bool
  | .terminated | .wait _ | .remove _ | .unlock _ | .result _ | .release _ _ => true
  | _ => false

def ThrdPlace.holds (target : Fin count) : ThrdPlace count → Prop
  | .join thread place => thread = target ∧ place.holds
  | _ => False

def Owns (thrds : Fin count → Thrd count) (self target : Fin count) : Prop :=
  (thrds target).joiner = some self ∧ (thrds target).linked ∧ (thrds target).released = 0

def Removed (thrds : Fin count → Thrd count) (self target : Fin count) : Prop :=
  (thrds target).joiner = some self ∧ (thrds target).linked = false ∧ (thrds target).released = 0 ∧
    (thrds target).terminated

def JoinPlace.Ok (thrds : Fin count → Thrd count) (lock : Option (Fin count)) (self target : Fin count) :
    JoinPlace → Prop
  | .lock | .aborted => True
  | .detached | .joiner => lock = some self
  | .refuse => False
  | .mark => lock = some self ∧ (thrds target).joiner = none
  | .wait (.lock status) => Owns thrds self target ∧ status.negative = false
  | .terminated | .wait _ => Owns thrds self target
  | .remove status => status = .thrdSuccess ∧ Owns thrds self target ∧ (thrds target).terminated
  | .unlock status | .result status | .release status _ =>
      status = .thrdSuccess ∧ Removed thrds self target

def ThrdPlace.Ok (thrds : Fin count → Thrd count) (lock : Option (Fin count)) (self : Fin count) :
    ThrdPlace count → Prop
  | .join target place => place.Ok thrds lock self target
  | _ => True

def Joined (state : Joining count) (target : Fin count) : Prop :=
  (state.thrds target).linked = false ∧ (state.thrds target).terminated ∧
    (state.thrds target).released = 1 ∧ ∃ result, (target, .thrdSuccess, result) ∈ state.joins

def Held (state : Joining count) (self target : Fin count) : Prop :=
  (state.place self).holds target ∨
    (state.place self = .join target .aborted ∧ Removed state.thrds self target) ∨ Joined state target

structure JoinSound (state : Joining count) : Prop where
  detached : ∀ target, (state.thrds target).detached = false
  born : ∀ self target place, state.place self = .join target place → state.place target ≠ .unborn
  places : ∀ self, (state.place self).Ok state.thrds state.thrdsLock self
  free : ∀ target, state.place target ≠ .unborn → (state.thrds target).joiner = none →
    (state.thrds target).linked ∧ (state.thrds target).released = 0
  held : ∀ target self, state.place target ≠ .unborn → (state.thrds target).joiner = some self →
    Held state self target

structure KeepsThrd (mover : Fin count) (lock : Option (Fin count)) (before after : Thrd count) : Prop where
  detached : after.detached = before.detached
  terminated : before.terminated → after.terminated
  others : before.joiner ≠ some mover →
    after.linked = before.linked ∧ after.released = before.released
  joiner : after.joiner = before.joiner ∨
    before.joiner = none ∧ after.joiner = some mover ∧ lock = some mover

theorem KeepsThrd.refl (self : Fin count) (lock : Option (Fin count)) (thrd : Thrd count) :
    KeepsThrd self lock thrd thrd where
  detached := rfl
  terminated := id
  others _ := ⟨rfl, rfl⟩
  joiner := Or.inl rfl

section

variable {state next : Joining count} {self other target : Fin count}

theorem KeepsThrd.of_joiner {lock : Option (Fin count)} {before after : Thrd count}
    (keeps : KeepsThrd self lock before after) (different : other ≠ self) (owner : before.joiner = some other) :
    after.joiner = some other ∧ after.linked = before.linked ∧ after.released = before.released := by
  have notSelf : before.joiner ≠ some self := by
    rw [owner]
    exact fun same => different (Option.some.inj same)
  refine ⟨?_, keeps.others notSelf⟩
  rcases keeps.joiner with same | ⟨none, _⟩
  · exact same.trans owner
  · rw [none] at owner
    cases owner

theorem Owns.of_keeps {lock : Option (Fin count)} (owns : Owns state.thrds other target)
    (keeps : KeepsThrd self lock (state.thrds target) (next.thrds target)) (different : other ≠ self) :
    Owns next.thrds other target := by
  obtain ⟨joiner, linked, released⟩ := keeps.of_joiner different owns.1
  exact ⟨joiner, linked.trans owns.2.1, released.trans owns.2.2⟩

theorem Removed.of_keeps {lock : Option (Fin count)} (removed : Removed state.thrds other target)
    (keeps : KeepsThrd self lock (state.thrds target) (next.thrds target)) (different : other ≠ self) :
    Removed next.thrds other target := by
  obtain ⟨joiner, linked, released⟩ := keeps.of_joiner different removed.1
  exact ⟨joiner, linked.trans removed.2.1, released.trans removed.2.2.1, keeps.terminated removed.2.2.2⟩

theorem ThrdPlace.Ok.of_other {place : ThrdPlace count}
    (ok : place.Ok state.thrds state.thrdsLock other) (different : other ≠ self)
    (lock : state.thrdsLock = some other → next.thrdsLock = some other)
    (targets : ∀ target number, place = .join target number →
      KeepsThrd self state.thrdsLock (state.thrds target) (next.thrds target)) :
    place.Ok next.thrds next.thrdsLock other := by
  cases place with
  | join target place =>
    have keeps := targets target place rfl
    cases place with
    | lock | aborted => trivial
    | detached | joiner => exact lock ok
    | refuse => exact ok.elim
    | mark =>
      refine ⟨lock ok.1, ?_⟩
      rcases keeps.joiner with same | ⟨_, _, owner⟩
      · exact same.trans ok.2
      · exact absurd (Option.some.inj (owner.symm.trans ok.1)).symm different
    | terminated => exact Owns.of_keeps ok keeps different
    | wait place =>
      cases place with
      | lock status => exact ⟨Owns.of_keeps ok.1 keeps different, ok.2⟩
      | _ => exact Owns.of_keeps ok keeps different
    | remove status => exact ⟨ok.1, Owns.of_keeps ok.2.1 keeps different, keeps.terminated ok.2.2⟩
    | unlock status | result status | release status _ =>
      exact ⟨ok.1, Removed.of_keeps ok.2 keeps different⟩
  | _ => trivial

namespace JoinSound

theorem change (sound : JoinSound state)
    (place : ∀ other, other ≠ self → next.place other = state.place other)
    (lock : ∀ other, other ≠ self → state.thrdsLock = some other → next.thrdsLock = some other)
    (keeps : ∀ target, KeepsThrd self state.thrdsLock (state.thrds target) (next.thrds target))
    (joins : ∀ entry ∈ state.joins, entry ∈ next.joins)
    (wasBorn : state.place self ≠ .unborn) (born : next.place self ≠ .unborn)
    (aims : ∀ target place, next.place self = .join target place → next.place target ≠ .unborn)
    (own : (next.place self).Ok next.thrds next.thrdsLock self)
    (held : ∀ target, next.place target ≠ .unborn → (next.thrds target).joiner = some self →
      Held next self target) : JoinSound next := by
  have stays (other : Fin count) : next.place other ≠ .unborn → state.place other ≠ .unborn := by
    by_cases same : other = self
    · exact fun _ => same ▸ wasBorn
    · rw [place other same]
      exact id
  have stillBorn (other : Fin count) : state.place other ≠ .unborn → next.place other ≠ .unborn := by
    by_cases same : other = self
    · exact fun _ => same ▸ born
    · rw [place other same]
      exact id
  constructor
  · exact fun target => (keeps target).detached.trans (sound.detached target)
  · intro other aim number isAt
    by_cases same : other = self
    · exact aims aim number (same ▸ isAt)
    · rw [place other same] at isAt
      exact stillBorn aim (sound.born other aim number isAt)
  · intro other
    by_cases same : other = self
    · exact same ▸ own
    · rw [place other same]
      exact (sound.places other).of_other same (lock other same) fun target _ _ => keeps target
  · intro target isBorn none
    have keeps := keeps target
    have before : (state.thrds target).joiner = .none := by
      rcases keeps.joiner with same | ⟨_, marked, _⟩
      · exact same.symm.trans none
      · rw [marked] at none
        cases none
    obtain ⟨linked, released⟩ := keeps.others (by rw [before]; simp)
    obtain ⟨wasLinked, notReleased⟩ := sound.free target (stays target isBorn) before
    exact ⟨linked.trans wasLinked, released.trans notReleased⟩
  · intro target other isBorn joiner
    by_cases same : other = self
    · subst same
      exact held target isBorn joiner
    · have keeps := keeps target
      have before : (state.thrds target).joiner = some other := by
        rcases keeps.joiner with isSame | ⟨_, marked, _⟩
        · exact isSame.symm.trans joiner
        · exact absurd (Option.some.inj (marked.symm.trans joiner)).symm same
      rcases sound.held target other (stays target isBorn) before with holds | ⟨aborted, removed⟩ | joined
      · exact Or.inl (by rw [place other same]; exact holds)
      · exact Or.inr (Or.inl ⟨(place other same).trans aborted, removed.of_keeps keeps same⟩)
      · obtain ⟨unlinked, terminated, released, result, member⟩ := joined
        obtain ⟨_, sameLinked, sameReleased⟩ := keeps.of_joiner same before
        exact Or.inr (Or.inr ⟨sameLinked.trans unlinked, keeps.terminated terminated,
          sameReleased.trans released, result, joins _ member⟩)

theorem goes (sound : JoinSound state) {place : ThrdPlace count}
    (isPlace : next.place = Function.update state.place self place) (thrds : next.thrds = state.thrds)
    (joins : ∀ entry ∈ state.joins, entry ∈ next.joins)
    (lock : ∀ other, other ≠ self → state.thrdsLock = some other → next.thrdsLock = some other)
    (wasBorn : state.place self ≠ .unborn) (born : place ≠ .unborn)
    (aims : ∀ target number, place = .join target number → state.place target ≠ .unborn)
    (ok : place.Ok state.thrds next.thrdsLock self)
    (notAborted : ∀ target, state.place self ≠ .join target .aborted)
    (holds : ∀ target, (state.place self).holds target →
      place.holds target ∨ (place = .join target .aborted ∧ Removed state.thrds self target)) :
    JoinSound next := by
  have own : next.place self = place := by rw [isPlace, Function.update_self]
  have same (other : Fin count) (different : other ≠ self) : next.place other = state.place other := by
    rw [isPlace, Function.update_of_ne different]
  have wasAlive (target : Fin count) (alive : next.place target ≠ .unborn) :
      state.place target ≠ .unborn := by
    by_cases isSelf : target = self
    · exact isSelf ▸ wasBorn
    · exact same target isSelf ▸ alive
  refine sound.change same lock (fun target => thrds ▸ .refl ..) joins wasBorn (own ▸ born)
    (fun target number isAt => ?_) (by rw [own, thrds]; exact ok) fun target isBorn joiner => ?_
  · by_cases isSelf : target = self
    · rw [isSelf, own]
      exact born
    · rw [same target isSelf]
      exact aims target number (own ▸ isAt)
  · rw [thrds] at joiner
    rcases sound.held target self (wasAlive target isBorn) joiner with held | ⟨aborted, _⟩ | joined
    · rcases holds target held with held | ⟨aborted, removed⟩
      · exact Or.inl (own ▸ held)
      · exact Or.inr (Or.inl ⟨own.trans aborted, thrds ▸ removed⟩)
    · exact absurd aborted (notAborted target)
    · obtain ⟨unlinked, terminated, released, result, member⟩ := joined
      rw [← thrds] at unlinked terminated released
      exact Or.inr (Or.inr ⟨unlinked, terminated, released, result, joins _ member⟩)

theorem join (sound : JoinSound state) {place after : JoinPlace}
    (isAt : state.place self = .join target place)
    (isPlace : next.place = Function.update state.place self (.join target after))
    (thrds : next.thrds = state.thrds) (joins : next.joins = state.joins)
    (lock : ∀ other, other ≠ self → state.thrdsLock = some other → next.thrdsLock = some other)
    (ok : after.Ok state.thrds next.thrdsLock self target) (notAborted : place ≠ .aborted)
    (holds : place.holds → after.holds ∨ (after = .aborted ∧ Removed state.thrds self target)) :
    JoinSound next := by
  refine sound.goes isPlace thrds (fun _ => joins ▸ id) lock (by simp [isAt]) (by simp) ?_ ok ?_ ?_
  · intro aim number same
    cases same
    exact sound.born self target place isAt
  · intro aim same
    rw [isAt] at same
    cases same
    exact notAborted rfl
  · intro aim held
    rw [isAt] at held
    obtain ⟨rfl, held⟩ := held
    exact (holds held).imp (fun holds => ⟨rfl, holds⟩) fun ⟨aborted, removed⟩ => ⟨by rw [aborted], removed⟩

theorem outside (sound : JoinSound state) {place : ThrdPlace count}
    (isPlace : next.place = Function.update state.place self place)
    (keeps : ∀ target, KeepsThrd self state.thrdsLock (state.thrds target) (next.thrds target))
    (joiner : ∀ target, (next.thrds target).joiner = (state.thrds target).joiner ∧
      (next.thrds target).linked = (state.thrds target).linked ∧
      (next.thrds target).released = (state.thrds target).released)
    (joins : next.joins = state.joins)
    (lock : ∀ other, other ≠ self → state.thrdsLock = some other → next.thrdsLock = some other)
    (wasBorn : state.place self ≠ .unborn) (born : place ≠ .unborn)
    (before : ∀ target number, state.place self ≠ .join target number)
    (after : ∀ target number, place ≠ .join target number) : JoinSound next := by
  have own : next.place self = place := by rw [isPlace, Function.update_self]
  have same (other : Fin count) (different : other ≠ self) : next.place other = state.place other := by
    rw [isPlace, Function.update_of_ne different]
  refine sound.change same lock keeps (fun _ => joins ▸ id) wasBorn (own ▸ born) ?_ ?_ ?_
  · exact fun target number isAt => absurd (own.symm.trans isAt) (after target number)
  · rw [own]
    cases place with
    | join target number => exact absurd rfl (after target number)
    | _ => trivial
  · intro target isBorn isJoiner
    have wasAlive : state.place target ≠ .unborn := by
      by_cases isSelf : target = self
      · exact isSelf ▸ wasBorn
      · exact same target isSelf ▸ isBorn
    obtain ⟨sameJoiner, linked, released⟩ := joiner target
    rcases sound.held target self wasAlive (sameJoiner ▸ isJoiner) with held | ⟨aborted, _⟩ | joined
    · cases was : state.place self with
      | join aim number => exact absurd was (before aim number)
      | _ =>
        rw [was] at held
        exact held.elim
    · exact absurd aborted (before target _)
    · obtain ⟨unlinked, terminated, isReleased, result, member⟩ := joined
      exact Or.inr (Or.inr ⟨linked.trans unlinked, (keeps target).terminated terminated,
        released.trans isReleased, result, joins ▸ member⟩)

theorem unlock_of_ne {other : Fin count} (different : other ≠ self) (owner : state.thrdsLock = some other) :
    (state.unlock self).thrdsLock = some other := by
  have notSelf : ¬ state.thrdsLock = some self := by
    rw [owner]
    exact fun same => different (Option.some.inj same)
  rw [Joining.unlock]
  exact (if_neg notSelf).trans owner

theorem wait (sound : JoinSound state) {place : CndPlace} (isAt : state.place self = .join target (.wait place))
    (moved : state.advanceCnd self (.joiners target) (Joining.resumeJoin target) place = some next) :
    JoinSound next := by
  have ok := sound.places self
  rw [isAt] at ok
  cases place with
  | sequence =>
    cases moved
    exact sound.join isAt rfl rfl rfl (fun _ _ => id) ok (by simp) (fun _ => Or.inl rfl)
  | unlock sequence =>
    cases moved
    exact sound.join isAt rfl rfl rfl (fun _ => unlock_of_ne) ok (by simp) (fun _ => Or.inl rfl)
  | futexWait sequence =>
    cases moved
    refine sound.join isAt rfl rfl rfl (fun _ _ => id) ?_ (by simp) (fun _ => Or.inl rfl)
    split
    · exact ok
    · exact ⟨ok, rfl⟩
  | blocked => cases moved
  | lock status =>
    obtain ⟨owns, succeeded⟩ := ok
    have success : cndStatus status = .thrdSuccess := by
      rw [cndStatus, succeeded]
      rfl
    simp only [Joining.advanceCnd, success, Joining.resumeJoin] at moved
    split at moved
    case isTrue free =>
      cases moved
      refine sound.join isAt rfl rfl rfl (fun other _ owner => ?_) owns (by simp) (fun _ => Or.inl rfl)
      rw [free] at owner
      cases owner
    case isFalse =>
      split at moved
      · cases moved
        exact sound.join isAt rfl rfl rfl (fun _ _ => id) owns (by simp) (fun _ => Or.inl rfl)
      · cases moved

theorem joinThrd (sound : JoinSound state) {place : JoinPlace} {after : ThrdPlace count} {thrd : Thrd count}
    (isAt : state.place self = .join target place)
    (isPlace : next.place = Function.update state.place self after)
    (thrds : next.thrds = Function.update state.thrds target thrd)
    (joins : ∀ entry ∈ state.joins, entry ∈ next.joins) (lock : next.thrdsLock = state.thrdsLock)
    (born : after ≠ .unborn) (aims : ∀ aim number, after = .join aim number → aim = target)
    (keeps : KeepsThrd self state.thrdsLock (state.thrds target) thrd)
    (ok : after.Ok next.thrds next.thrdsLock self) (notAborted : place ≠ .aborted)
    (held : Held next self target) : JoinSound next := by
  have own : next.place self = after := by rw [isPlace, Function.update_self]
  have same (other : Fin count) (different : other ≠ self) : next.place other = state.place other := by
    rw [isPlace, Function.update_of_ne different]
  have wasBorn : state.place self ≠ .unborn := by simp [isAt]
  have alive (aim : Fin count) : next.place aim ≠ .unborn ↔ state.place aim ≠ .unborn := by
    by_cases isSelf : aim = self
    · rw [isSelf, own]
      exact iff_of_true born wasBorn
    · rw [same aim isSelf]
  have others {aim : Fin count} (different : aim ≠ target) : next.thrds aim = state.thrds aim := by
    rw [thrds, Function.update_of_ne different]
  refine sound.change same (fun _ _ => lock ▸ id) (fun aim => ?_) joins wasBorn (own ▸ born)
    (fun aim number isAim => ?_) (own ▸ ok) fun aim isBorn joiner => ?_
  · by_cases isTarget : aim = target
    · rw [thrds, isTarget, Function.update_self]
      exact keeps
    · exact others isTarget ▸ .refl ..
  · obtain rfl := aims aim number (own ▸ isAim)
    exact (alive aim).mpr (sound.born self aim place isAt)
  · by_cases isTarget : aim = target
    · exact isTarget ▸ held
    · rw [others isTarget] at joiner
      rcases sound.held aim self ((alive aim).mp isBorn) joiner with holds | ⟨aborted, _⟩ | joined
      · rw [isAt] at holds
        exact absurd holds.1.symm isTarget
      · rw [isAt] at aborted
        cases aborted
        exact absurd rfl isTarget
      · rw [Joined, ← others isTarget] at joined
        obtain ⟨unlinked, terminated, released, result, member⟩ := joined
        exact Or.inr (Or.inr ⟨unlinked, terminated, released, result, joins _ member⟩)

theorem mark (sound : JoinSound state) (isAt : state.place self = .join target .mark)
    (moved : state.advanceJoin self target .mark = some next) : JoinSound next := by
  have ok := sound.places self
  rw [isAt] at ok
  obtain ⟨lock, none⟩ := ok
  obtain ⟨linked, released⟩ := sound.free target (sound.born self target .mark isAt) none
  cases moved
  refine sound.joinThrd isAt rfl rfl (fun _ => id) rfl (by simp) ?_ ?_ ?_ (by simp) ?_
  · intro aim number same
    cases same
    rfl
  · exact ⟨rfl, id, fun _ => ⟨rfl, rfl⟩, Or.inr ⟨none, rfl, lock⟩⟩
  · simp only [ThrdPlace.Ok, JoinPlace.Ok, Owns, Joining.goes, Joining.setThrd, Function.update_self]
    exact ⟨trivial, linked, released⟩
  · refine Or.inl ?_
    simp only [Joining.goes, Function.update_self]
    exact ⟨rfl, rfl⟩

theorem remove (sound : JoinSound state) {status : ThrdStatus}
    (isAt : state.place self = .join target (.remove status))
    (moved : state.advanceJoin self target (.remove status) = some next) : JoinSound next := by
  have ok := sound.places self
  rw [isAt] at ok
  obtain ⟨success, ⟨joiner, linked, released⟩, terminated⟩ := ok
  cases moved
  refine sound.joinThrd isAt rfl rfl (fun _ => id) rfl (by simp) ?_ ?_ ?_ (by simp) ?_
  · intro aim number same
    cases same
    rfl
  · exact ⟨rfl, id, fun other => absurd joiner other, Or.inl rfl⟩
  · simp only [ThrdPlace.Ok, JoinPlace.Ok, Removed, Joining.goes, Joining.setThrd, Function.update_self]
    exact ⟨success, joiner, trivial, released, terminated⟩
  · refine Or.inl ?_
    simp only [Joining.goes, Function.update_self]
    exact ⟨rfl, rfl⟩

theorem release (sound : JoinSound state) {status : ThrdStatus} {result : Word}
    (isAt : state.place self = .join target (.release status result))
    (moved : state.advanceJoin self target (.release status result) = some next) : JoinSound next := by
  have ok := sound.places self
  rw [isAt] at ok
  obtain ⟨rfl, joiner, unlinked, released, terminated⟩ := ok
  cases moved
  refine sound.joinThrd isAt rfl rfl (fun _ => List.mem_cons_of_mem _) rfl (by simp) ?_ ?_ trivial
    (by simp) ?_
  · intro aim number same
    cases same
  · exact ⟨rfl, id, fun other => absurd joiner other, Or.inl rfl⟩
  · refine Or.inr (Or.inr ?_)
    simp only [Joined, Joining.goes, Joining.setThrd, Function.update_self]
    exact ⟨unlinked, terminated, by rw [released], result, List.mem_cons_self⟩

theorem advanceJoin (sound : JoinSound state) {place : JoinPlace} (isAt : state.place self = .join target place)
    (alone : place = .joiner → (state.thrds target).joiner = none)
    (moved : state.advanceJoin self target place = some next) : JoinSound next := by
  have ok := sound.places self
  rw [isAt] at ok
  cases place with
  | lock =>
    simp only [Joining.advanceJoin] at moved
    split at moved
    case isTrue free =>
      cases moved
      refine sound.join isAt rfl rfl rfl (fun other _ owner => ?_) rfl (by simp) (fun held => by cases held)
      rw [free] at owner
      cases owner
    case isFalse =>
      split at moved
      · cases moved
        exact sound.join isAt rfl rfl rfl (fun _ _ => id) trivial (by simp) (fun held => by cases held)
      · cases moved
  | detached =>
    cases moved
    refine sound.join isAt rfl rfl rfl (fun _ _ => id) ?_ (by simp) (fun held => by cases held)
    rw [sound.detached target]
    exact ok
  | joiner =>
    cases moved
    refine sound.join isAt rfl rfl rfl (fun _ _ => id) ?_ (by simp) (fun held => by cases held)
    rw [if_neg (not_not.mpr (alone rfl))]
    exact ⟨ok, alone rfl⟩
  | refuse => exact ok.elim
  | mark => exact sound.mark isAt moved
  | terminated =>
    cases moved
    refine sound.join isAt rfl rfl rfl (fun _ _ => id) ?_ (by simp) (fun _ => Or.inl (by split <;> rfl))
    split
    case isTrue terminated => exact ⟨rfl, ok, terminated⟩
    case isFalse => exact ok
  | wait place => exact sound.wait isAt moved
  | remove status => exact sound.remove isAt moved
  | unlock status =>
    cases moved
    obtain ⟨success, removed⟩ := ok
    refine sound.join isAt rfl rfl rfl (fun _ => unlock_of_ne) ?_ (by simp) fun _ => ?_
    · split
      · exact ⟨success, removed⟩
      · trivial
    · split
      · exact Or.inl rfl
      · exact Or.inr ⟨rfl, removed⟩
  | result status =>
    cases moved
    exact sound.join isAt rfl rfl rfl (fun _ _ => id) ok (by simp) (fun _ => Or.inl rfl)
  | release status result => exact sound.release isAt moved
  | aborted => cases moved

theorem passes (sound : JoinSound state) {before after : ThrdPlace count}
    (isAt : state.place self = before) (isPlace : next.place = Function.update state.place self after)
    (thrds : next.thrds = state.thrds) (joins : next.joins = state.joins)
    (lock : ∀ other, other ≠ self → state.thrdsLock = some other → next.thrdsLock = some other)
    (wasBorn : before ≠ .unborn) (born : after ≠ .unborn)
    (notBefore : ∀ target number, before ≠ .join target number)
    (notAfter : ∀ target number, after ≠ .join target number) : JoinSound next :=
  sound.outside isPlace (fun _ => thrds ▸ .refl ..) (fun _ => thrds ▸ ⟨rfl, rfl, rfl⟩) joins lock
    (isAt ▸ wasBorn) born (isAt ▸ notBefore) notAfter

theorem advanceDetach (sound : JoinSound state) {place : DetachPlace} {targets : List (Fin count)}
    (isAt : state.place self = .detach place targets)
    (moved : state.advanceDetach self targets place = some next) : JoinSound next := by
  have passes {after : ThrdPlace count} (isPlace : next.place = Function.update state.place self after)
      (thrds : next.thrds = state.thrds) (joins : next.joins = state.joins)
      (lock : next.thrdsLock = state.thrdsLock) (born : after ≠ .unborn)
      (notAfter : ∀ target number, after ≠ .join target number) : JoinSound next :=
    sound.passes isAt isPlace thrds joins (fun _ _ => lock ▸ id) (by simp) born (by simp) notAfter
  cases place with
  | load | init | store | wake =>
    cases moved
    exact passes rfl rfl rfl rfl (by simp) (by simp)
  | create => cases moved
  | claim | exchange =>
    simp only [Joining.advanceDetach] at moved
    split at moved
    all_goals
      cases moved
      exact passes rfl rfl rfl rfl (by simp) (by simp)
  | wait value =>
    simp only [Joining.advanceDetach] at moved
    split at moved
    · cases moved
    · cases moved
      exact passes rfl rfl rfl rfl (by simp) (by simp)
  | setFlags =>
    cases targets with
    | nil => cases moved
    | cons target rest =>
      cases moved
      exact passes rfl rfl rfl rfl (by split <;> simp) (by intro _ _; split <;> simp)

theorem woken (sound : JoinSound state) (cnd : Cnd count) :
    JoinSound { state with place := fun other => (state.place other).woken cnd } := by
  have born (other : Fin count) : (state.place other).woken cnd ≠ .unborn ↔ state.place other ≠ .unborn := by
    rcases (state.place other).woken_cases cnd with ⟨_, _, isAt, after, _⟩ | ⟨_, isAt, after⟩ | same
    · rw [after, isAt]
      simp
    · rw [after, isAt]
      simp
    · rw [same]
  constructor
  · exact sound.detached
  · intro self target place isAfter
    refine (born target).mpr ?_
    rcases (state.place self).woken_cases cnd with ⟨aim, _, isAt, after, _⟩ | ⟨_, _, after⟩ | same
    · cases after.symm.trans isAfter
      exact sound.born self _ _ isAt
    · cases after.symm.trans isAfter
    · exact sound.born self target place (same.symm.trans isAfter)
  · intro self
    have ok := sound.places self
    simp only
    rcases (state.place self).woken_cases cnd with ⟨_, _, isAt, after, rfl | rfl⟩ | ⟨_, _, after⟩ | same
    · rw [isAt] at ok
      rw [after]
      exact ok
    · rw [isAt] at ok
      rw [after]
      exact ⟨ok, rfl⟩
    · rw [after]
      trivial
    · rw [same]
      exact ok
  · exact fun target isBorn => sound.free target ((born target).mp isBorn)
  · intro target self isBorn joiner
    have held := sound.held target self ((born target).mp isBorn) joiner
    simp only [Held, Joined] at held ⊢
    rcases (state.place self).woken_cases cnd with ⟨_, _, isAt, after, _⟩ | ⟨_, isAt, after⟩ | same
    · rw [isAt] at held
      rw [after]
      exact held.imp (fun holds => ⟨holds.1, rfl⟩) (Or.imp_left fun aborted => by cases aborted.1)
    · rw [isAt] at held
      rw [after]
      exact held.imp (fun holds => holds.elim) (Or.imp_left fun aborted => by cases aborted.1)
    · rw [same]
      exact held

theorem advanceFinish (sound : JoinSound state) {place : FinishPlace count}
    (isAt : state.place self = .finish place) (moved : state.advanceFinish self place = some next) :
    JoinSound next := by
  have updated {thrd : Thrd count} {after : ThrdPlace count}
      (isNext : next = (state.setThrd self thrd).goes self after)
      (keeps : KeepsThrd self state.thrdsLock (state.thrds self) thrd)
      (same : thrd.joiner = (state.thrds self).joiner ∧ thrd.linked = (state.thrds self).linked ∧
        thrd.released = (state.thrds self).released)
      (born : after ≠ .unborn) (notAfter : ∀ target number, after ≠ .join target number) :
      JoinSound next := by
    subst isNext
    refine sound.outside rfl (fun target => ?_) (fun target => ?_) rfl (fun _ _ => id) (by simp [isAt]) born
      (by simp [isAt]) notAfter
    · by_cases isSelf : target = self
      · subst isSelf
        simp only [Joining.goes, Joining.setThrd, Function.update_self]
        exact keeps
      · simp only [Joining.goes, Joining.setThrd, Function.update_of_ne isSelf]
        exact .refl ..
    · by_cases isSelf : target = self
      · subst isSelf
        simp only [Joining.goes, Joining.setThrd, Function.update_self]
        exact same
      · simp only [Joining.goes, Joining.setThrd, Function.update_of_ne isSelf, and_self]
  cases place with
  | ret result =>
    cases moved
    exact updated rfl ⟨rfl, id, fun _ => ⟨rfl, rfl⟩, Or.inl rfl⟩ ⟨rfl, rfl, rfl⟩ (by simp) (by simp)
  | terminated =>
    cases moved
    exact updated rfl ⟨rfl, fun _ => rfl, fun _ => ⟨rfl, rfl⟩, Or.inl rfl⟩ ⟨rfl, rfl, rfl⟩
      (by simp) (by simp)
  | detached | sequence cnd =>
    cases moved
    exact sound.passes isAt rfl rfl rfl (fun _ _ => id) (by simp) (by simp) (by simp) (by simp)
  | wake cnd =>
    cases moved
    have still : (state.place self).woken cnd = .finish (.wake cnd) := by
      rw [isAt]
      rfl
    exact (sound.woken cnd).passes still rfl rfl rfl (fun _ _ => id) (by simp) (by simp) (by simp) (by simp)

theorem advanceReap (sound : JoinSound state) {place : ReapPlace} (isAt : state.place self = .reap place)
    (moved : state.advanceReap self place = some next) : JoinSound next := by
  have passes {after : ReapPlace} (isPlace : next.place = Function.update state.place self (.reap after))
      (thrds : next.thrds = state.thrds) (joins : next.joins = state.joins)
      (lock : ∀ other, other ≠ self → state.thrdsLock = some other → next.thrdsLock = some other) :
      JoinSound next :=
    sound.passes isAt isPlace thrds joins lock (by simp) (by simp) (by simp) (by simp)
  have taken (free : state.thrdsLock = none) (other : Fin count) (_ : other ≠ self)
      (owner : state.thrdsLock = some other) : some self = some other := by
    rw [free] at owner
    cases owner
  cases place with
  | lock =>
    simp only [Joining.advanceReap] at moved
    split at moved
    case isTrue free =>
      cases moved
      exact passes rfl rfl rfl (taken free)
    case isFalse => cases moved
  | wait place =>
    have resumed (status : ThrdStatus) : ∃ after, @Joining.resumeReap count (.inr status) = .reap after := by
      cases status with
      | _ => exact ⟨_, rfl⟩
    cases place with
    | sequence | futexWait _ =>
      cases moved
      exact passes rfl rfl rfl fun _ _ => id
    | unlock sequence =>
      cases moved
      exact passes rfl rfl rfl fun _ => unlock_of_ne
    | blocked => cases moved
    | lock status =>
      obtain ⟨after, isAfter⟩ := resumed (cndStatus status)
      simp only [Joining.advanceReap, Joining.advanceCnd, isAfter] at moved
      split at moved
      case isTrue free =>
        cases moved
        exact passes rfl rfl rfl (taken free)
      case isFalse =>
        split at moved
        · cases moved
          exact passes rfl rfl rfl fun _ _ => id
        · cases moved
  | scan index =>
    simp only [Joining.advanceReap] at moved
    split at moved
    case isTrue inside =>
      rw [if_neg fun all => absurd all.2.1 (by simp [sound.detached])] at moved
      cases moved
      exact passes rfl rfl rfl fun _ _ => id
    case isFalse =>
      cases moved
      exact passes rfl rfl rfl fun _ _ => id
  | aborted => cases moved

theorem broken (sound : JoinSound state) {status : Result}
    (succeeds : ∀ target, state.place self = .join target (.wait .blocked) → status.negative = false)
    (moved : state.broken self status = some next) : JoinSound next := by
  have ok := sound.places self
  unfold Joining.broken at moved
  split at moved
  case h_1 target isAt =>
    cases moved
    rw [isAt] at ok
    exact sound.join isAt rfl rfl rfl (fun _ _ => id) ⟨ok, succeeds target isAt⟩ (by simp)
      (fun _ => Or.inl rfl)
  case h_2 isAt =>
    cases moved
    exact sound.passes isAt rfl rfl rfl (fun _ _ => id) (by simp) (by simp) (by simp) (by simp)
  case h_3 target result isAt =>
    rw [isAt] at ok
    obtain ⟨owns, succeeded⟩ := ok
    have success : cndStatus result = .thrdSuccess := by
      rw [cndStatus, succeeded]
      rfl
    simp only [success, Joining.resumeJoin] at moved
    split at moved
    · cases moved
      exact sound.join isAt rfl rfl rfl (fun _ _ => id) owns (by simp) (fun _ => Or.inl rfl)
    · cases moved
  case h_4 result isAt =>
    split at moved
    · cases moved
      refine sound.passes isAt rfl rfl rfl (fun _ _ => id) (by simp) ?_ (by simp) ?_
      · cases cndStatus result <;> simp [Joining.resumeReap]
      · cases cndStatus result <;> simp [Joining.resumeReap]
    · cases moved
  case h_5 target isAt =>
    split at moved
    · cases moved
      exact sound.join isAt rfl rfl rfl (fun _ _ => id) trivial (by simp) (fun held => by cases held)
    · cases moved
  case h_6 isAt =>
    split at moved
    · cases moved
      exact sound.passes isAt rfl rfl rfl (fun _ _ => id) (by simp) (by simp) (by simp) (by simp)
    · cases moved
  case h_7 isAt =>
    cases moved
    exact sound.passes isAt rfl rfl rfl (fun _ _ => id) (by simp) (by simp) (by simp) (by simp)
  case h_8 => cases moved

theorem created (sound : JoinSound state) {place : ThrdPlace count} (unborn : state.place target = .unborn)
    (born : place ≠ .unborn) (notJoin : ∀ aim number, place ≠ .join aim number) :
    JoinSound (state.created target place) := by
  have own : (state.created target place).place target = place := Function.update_self ..
  have same (other : Fin count) (different : other ≠ target) :
      (state.created target place).place other = state.place other := Function.update_of_ne different ..
  have fresh : (state.created target place).thrds target = { linked := true } := Function.update_self ..
  have sameThrd (other : Fin count) (different : other ≠ target) :
      (state.created target place).thrds other = state.thrds other := Function.update_of_ne different ..
  constructor
  · intro other
    by_cases isTarget : other = target
    · rw [isTarget, fresh]
    · rw [sameThrd other isTarget]
      exact sound.detached other
  · intro self aim number isAt
    by_cases isTarget : self = target
    · rw [isTarget, own] at isAt
      exact absurd isAt (notJoin aim number)
    · rw [same self isTarget] at isAt
      have alive := sound.born self aim number isAt
      have notTarget : aim ≠ target := fun isSame => alive (isSame ▸ unborn)
      rw [same aim notTarget]
      exact alive
  · intro self
    by_cases isTarget : self = target
    · rw [isTarget, own]
      cases place with
      | join aim number => exact absurd rfl (notJoin aim number)
      | _ => trivial
    · rw [same self isTarget]
      refine (sound.places self).of_other isTarget id fun aim number isAt => ?_
      have notTarget : aim ≠ target := fun isSame => sound.born self aim number isAt (isSame ▸ unborn)
      exact sameThrd aim notTarget ▸ .refl ..
  · intro other isBorn none
    by_cases isTarget : other = target
    · rw [isTarget, fresh]
      exact ⟨rfl, rfl⟩
    · rw [same other isTarget] at isBorn
      rw [sameThrd other isTarget] at none ⊢
      exact sound.free other isBorn none
  · intro other self isBorn joiner
    by_cases isTarget : other = target
    · rw [isTarget, fresh] at joiner
      cases joiner
    · rw [same other isTarget] at isBorn
      rw [sameThrd other isTarget] at joiner
      have joined := sound.held other self isBorn joiner
      by_cases isSelf : self = target
      · rw [Held, isSelf, unborn] at joined
        rcases joined with holds | ⟨aborted, _⟩ | joined
        · exact holds.elim
        · cases aborted
        · rw [Held, Joined, sameThrd other isTarget]
          exact Or.inr (Or.inr joined)
      · rw [Held, Joined, Removed, same self isSelf, sameThrd other isTarget]
        exact joined

theorem call (sound : JoinSound state) (running : state.place self = .running) {call : ThrdCall count}
    (moved : state.call self call = some next) : JoinSound next := by
  cases call with
  | thrdJoin target =>
    simp only [Joining.call] at moved
    split at moved
    case isTrue alive =>
      cases moved
      refine sound.goes rfl rfl (fun _ => id) (fun _ _ => id) (by simp [running]) (by simp) ?_ trivial
        (by simp [running]) fun aim held => ?_
      · intro aim number same
        cases same
        exact alive
      · rw [running] at held
        exact held.elim
    case isFalse => cases moved
  | thrdDetach target =>
    simp only [Joining.call] at moved
    split at moved
    · cases moved
      exact sound.passes running rfl rfl rfl (fun _ _ => id) (by simp) (by simp) (by simp) (by simp)
    · cases moved
  | thrdExit result =>
    cases moved
    exact sound.passes running rfl rfl rfl (fun _ _ => id) (by simp) (by simp) (by simp) (by simp)

end JoinSound

/-- No wait for a condition variable in `thrd_join` fails, and no call finds its thread marked by another
one. -/
def JoinsAlone (state : Joining count) : JoiningAction count → Prop
  | .returns self status =>
      match state.place self with
      | .join _ (.wait .blocked) => status.negative = false
      | _ => True
  | .act self =>
      match state.place self with
      | .join target .joiner => (state.thrds target).joiner = none
      | _ => True
  | _ => True

instance (state : Joining count) (action : JoiningAction count) : Decidable (JoinsAlone state action) := by
  unfold JoinsAlone
  repeat' split
  all_goals infer_instance

theorem JoinSound.step (sound : JoinSound state) {action : JoiningAction count}
    (alone : JoinsAlone state action) (moved : state.step action = some next) : JoinSound next := by
  cases action with
  | create thread target =>
    simp only [Joining.step] at moved
    split at moved
    case isFalse => cases moved
    case isTrue fresh =>
      split at moved
      case h_1 =>
        cases moved
        exact sound.created fresh.1 (by simp) (by simp)
      case h_2 targets isAt =>
        cases moved
        have notSelf : thread ≠ target := by
          rintro rfl
          rw [isAt] at fresh
          cases fresh.1
        have still : (state.created target (.reap .lock)).place thread = .detach .create targets :=
          (Function.update_of_ne notSelf ..).trans isAt
        exact (sound.created fresh.1 (by simp) (by simp)).passes still rfl rfl rfl (fun _ _ => id) (by simp)
          (by simp) (by simp) (by simp)
      case h_3 => cases moved
  | call thread call =>
    simp only [Joining.step] at moved
    split at moved
    case isTrue running => exact sound.call running moved
    case isFalse => cases moved
  | act thread =>
    simp only [Joining.step, Joining.advance] at moved
    split at moved
    case h_1 | h_2 | h_3 => cases moved
    case h_4 target place isAt =>
      refine sound.advanceJoin isAt (fun tests => ?_) moved
      simp only [JoinsAlone, isAt, tests] at alone
      exact alone
    case h_5 place targets isAt => exact sound.advanceDetach isAt moved
    case h_6 place isAt => exact sound.advanceFinish isAt moved
    case h_7 place isAt => exact sound.advanceReap isAt moved
  | returns thread status =>
    refine sound.broken (fun target isAt => ?_) moved
    simp only [JoinsAlone, isAt] at alone
    exact alone

theorem JoinSound.of_initial (isInitial : (joiningSystem count).initial state) :
    JoinSound state := by
  obtain ⟨threads, _⟩ := isInitial
  have place (self : Fin count) : state.place self ∈ [.unborn, .running, .reap .lock] := by
    rcases threads self with ⟨isAt, _⟩ | ⟨isAt, _⟩
    · rw [isAt]
      exact List.mem_cons_self
    · exact List.mem_cons_of_mem _ isAt
  have notJoin (self target : Fin count) (number : JoinPlace) : state.place self ≠ .join target number := by
    intro isAt
    have other := place self
    rw [isAt] at other
    simp at other
  constructor
  · intro target
    rcases threads target with ⟨_, isThrd⟩ | ⟨_, isThrd⟩
    all_goals rw [isThrd]
  · exact fun self target number isAt => absurd isAt (notJoin self target number)
  · intro self
    cases isAt : state.place self with
    | join target number => exact absurd isAt (notJoin self target number)
    | _ => trivial
  · intro target isBorn _
    rcases threads target with ⟨isAt, _⟩ | ⟨_, isThrd⟩
    · exact absurd isAt isBorn
    · rw [isThrd]
      exact ⟨rfl, rfl⟩
  · intro target self _ joiner
    rcases threads target with ⟨_, isThrd⟩ | ⟨_, isThrd⟩
    all_goals
      rw [isThrd] at joiner
      cases joiner

def JoinPlace.inside (place : JoinPlace) : Bool :=
  place.holds || decide (place = .aborted)

/-- Only terminated threads are removed and released, once; and one that no join has reclaimed or is about
to is in the list, allocated, and can be joined. -/
structure JoinsSafely (state : Joining count) : Prop where
  terminated : ∀ target, state.place target ≠ .unborn →
    (state.thrds target).linked = false ∨ (state.thrds target).released ≠ 0 →
      (state.thrds target).terminated
  once : ∀ target, state.place target ≠ .unborn → (state.thrds target).released ≤ 1
  kept : ∀ target, state.place target ≠ .unborn →
    (∀ result, (target, .thrdSuccess, result) ∉ state.joins) →
    (∀ self place, state.place self = .join target place → place.inside = false) →
      (state.thrds target).linked ∧ (state.thrds target).released = 0 ∧
        (state.thrds target).detached = false ∧ (state.thrds target).joiner = none

/-- A step with which a join returns anything but `thrd_success` leaves the thread in the list, allocated,
and ready to be joined. -/
def FailsSafely (state next : Joining count) : Prop :=
  ∀ target status result, next.joins = (target, status, result) :: state.joins → status ≠ .thrdSuccess →
    (next.thrds target).linked ∧ (next.thrds target).released = 0 ∧
      (next.thrds target).detached = false ∧ (next.thrds target).joiner = none

theorem JoinSound.stage (sound : JoinSound state) (isBorn : state.place target ≠ .unborn) :
    ((state.thrds target).linked ∧ (state.thrds target).released = 0) ∨
      (state.thrds target).terminated ∧ (state.thrds target).released ≤ 1 := by
  have ofRemoved {self : Fin count} (removed : Removed state.thrds self target) :
      (state.thrds target).terminated ∧ (state.thrds target).released ≤ 1 := by
    obtain ⟨_, _, released, terminated⟩ := removed
    exact ⟨terminated, released ▸ Nat.zero_le 1⟩
  cases joiner : (state.thrds target).joiner with
  | none => exact Or.inl (sound.free target isBorn joiner)
  | some self =>
    rcases sound.held target self isBorn joiner with holds | ⟨_, removed⟩ | joined
    · have ok := sound.places self
      cases isAt : state.place self with
      | join aim place =>
        rw [isAt] at holds ok
        obtain ⟨rfl, holds⟩ := holds
        cases place with
        | terminated => exact Or.inl ok.2
        | wait place =>
          cases place with
          | lock status => exact Or.inl ok.1.2
          | _ => exact Or.inl ok.2
        | remove status => exact Or.inl ok.2.1.2
        | unlock status | result status | release status _ => exact Or.inr (ofRemoved ok.2)
        | _ => exact absurd holds Bool.false_ne_true
      | _ =>
        rw [isAt] at holds
        exact holds.elim
    · exact Or.inr (ofRemoved removed)
    · exact Or.inr ⟨joined.2.1, joined.2.2.1.le⟩

theorem JoinSound.joinsSafely (sound : JoinSound state) : JoinsSafely state := by
  constructor
  · intro target isBorn left
    rcases sound.stage isBorn with ⟨linked, released⟩ | ⟨terminated, _⟩
    · rw [linked, released] at left
      simp at left
    · exact terminated
  · intro target isBorn
    rcases sound.stage isBorn with ⟨_, released⟩ | ⟨_, released⟩
    · rw [released]
      exact Nat.zero_le 1
    · exact released
  · intro target isBorn notJoined nobody
    have none : (state.thrds target).joiner = none := by
      by_contra isSome
      obtain ⟨self, joiner⟩ := Option.ne_none_iff_exists'.mp isSome
      rcases sound.held target self isBorn joiner with holds | ⟨aborted, _⟩ | ⟨_, _, _, result, member⟩
      · cases isAt : state.place self with
        | join aim place =>
          rw [isAt] at holds
          obtain ⟨rfl, holds⟩ := holds
          have outside := nobody self place isAt
          rw [JoinPlace.inside, holds] at outside
          exact absurd outside (by simp)
        | _ =>
          rw [isAt] at holds
          exact holds.elim
      · exact absurd (nobody self .aborted aborted) (by decide)
      · exact notJoined result member
    obtain ⟨linked, released⟩ := sound.free target isBorn none
    exact ⟨linked, released, sound.detached target, none⟩

theorem joins_advanceCnd {cnd : Cnd count} {resume : CndPlace ⊕ ThrdStatus → ThrdPlace count}
    {place : CndPlace} (moved : state.advanceCnd self cnd resume place = some next) :
    next.joins = state.joins := by
  cases place with
  | sequence | unlock _ | futexWait _ =>
    cases moved
    rfl
  | blocked => cases moved
  | lock status =>
    simp only [Joining.advanceCnd] at moved
    split at moved
    · cases moved
      rfl
    · split at moved
      · cases moved
        rfl
      · cases moved

theorem joins_advanceJoin {place : JoinPlace} (moved : state.advanceJoin self target place = some next) :
    next.joins = state.joins ∨ place = .refuse ∨
      ∃ status result, place = .release status result ∧
        next.joins = (target, status, result) :: state.joins := by
  cases place with
  | lock =>
    simp only [Joining.advanceJoin] at moved
    split at moved
    · cases moved
      exact Or.inl rfl
    · split at moved
      · cases moved
        exact Or.inl rfl
      · cases moved
  | detached | joiner | mark | terminated | remove _ | unlock _ | result _ =>
    cases moved
    exact Or.inl rfl
  | wait place => exact Or.inl (joins_advanceCnd moved)
  | refuse => exact Or.inr (Or.inl rfl)
  | release status result =>
    cases moved
    exact Or.inr (Or.inr ⟨status, result, rfl, rfl⟩)
  | aborted => cases moved

theorem joins_of_step {action : JoiningAction count} (moved : state.step action = some next)
    (added : next.joins ≠ state.joins) :
    ∃ self target place, state.place self = .join target place ∧
      state.advanceJoin self target place = some next := by
  cases action with
  | create thread target =>
    simp only [Joining.step] at moved
    split at moved
    · split at moved
      all_goals
        cases moved
        try exact (added rfl).elim
    · cases moved
  | call thread call =>
    simp only [Joining.step] at moved
    split at moved
    · cases call with
      | thrdExit result =>
        cases moved
        exact (added rfl).elim
      | thrdJoin target | thrdDetach target =>
        simp only [Joining.call] at moved
        split at moved
        · cases moved
          exact (added rfl).elim
        · cases moved
    · cases moved
  | act thread =>
    simp only [Joining.step, Joining.advance] at moved
    split at moved
    case h_1 | h_2 | h_3 => cases moved
    case h_4 target place isAt => exact ⟨thread, target, place, isAt, moved⟩
    case h_5 place targets isAt =>
      refine (added ?_).elim
      cases place with
      | setFlags =>
        cases targets with
        | nil => cases moved
        | cons target rest =>
          cases moved
          rfl
      | create => cases moved
      | load | init | store | wake =>
        cases moved
        rfl
      | claim | exchange | wait _ =>
        simp only [Joining.advanceDetach] at moved
        split at moved
        all_goals
          cases moved
          try rfl
    case h_6 place isAt =>
      refine (added ?_).elim
      cases place with
      | _ =>
        cases moved
        rfl
    case h_7 place isAt =>
      refine (added ?_).elim
      cases place with
      | wait place => exact joins_advanceCnd moved
      | lock =>
        simp only [Joining.advanceReap] at moved
        split at moved
        all_goals
          cases moved
          try rfl
      | scan index =>
        simp only [Joining.advanceReap] at moved
        split at moved
        · split at moved
          all_goals
            cases moved
            rfl
        · cases moved
          rfl
      | aborted => cases moved
  | returns thread status =>
    refine (added ?_).elim
    simp only [Joining.step, Joining.broken] at moved
    split at moved
    case h_1 | h_2 | h_7 =>
      cases moved
      rfl
    case h_3 | h_4 | h_5 | h_6 =>
      split at moved
      all_goals
        cases moved
        try rfl
    case h_8 => cases moved

theorem JoinSound.failsSafely (sound : JoinSound state) {action : JoiningAction count}
    (moved : state.step action = some next) : FailsSafely state next := by
  intro target status result returned failed
  obtain ⟨self, aim, place, isAt, joins⟩ := joins_of_step moved (by rw [returned]; simp)
  have ok := sound.places self
  rw [isAt] at ok
  rcases joins_advanceJoin joins with same | rfl | ⟨reported, value, rfl, added⟩
  · rw [same] at returned
    simp at returned
  · exact ok.elim
  · rw [added] at returned
    cases returned
    exact absurd ok.1 failed

/-- As long as no wait of a join fails and no two joins are for one thread, joins reclaim terminated
threads only, and keep what they fail to join. -/
theorem thrdJoin_safe (reached : (joiningSystem count).Guarded JoinsAlone state) :
    JoinsSafely state ∧ ∀ action next, JoinsAlone state action →
      (joiningSystem count).step state action = some next → FailsSafely state next := by
  have sound : JoinSound state := by
    refine reached.invariant (fun state => JoinSound.of_initial) ?_
    exact fun state action next sound alone moved => sound.step alone moved
  exact ⟨sound.joinsSafely, fun action next _ moved => sound.failsSafely moved⟩

def twoThreads : Joining 2 where
  thrds _ := { linked := true }
  place _ := .running

theorem twoThreads_initial : (joiningSystem 2).initial twoThreads :=
  ⟨fun _ => Or.inr ⟨List.mem_cons_self, rfl⟩, rfl, rfl, fun _ => rfl, rfl⟩

theorem thrdJoin_safe_run : ∃ state : Joining 2,
    (JoinsSafely state ∧ ∀ action next, JoinsAlone state action →
      (joiningSystem 2).step state action = some next → FailsSafely state next) ∧
    (state.thrds 1).released = 1 ∧ (1, .thrdSuccess, 7) ∈ state.joins := by
  obtain ⟨state, reached, check⟩ := @System.exists_of_run _ _ (joiningSystem 2) JoinsAlone _ twoThreads
    twoThreads_initial
    (List.flatten [[.call 0 (.thrdJoin 1)], List.replicate 8 (.act 0),
      [.returns 0 (.value 0), .act 0, .act 0], List.replicate 3 (.act 0), [.call 1 (.thrdExit 7)],
      List.replicate 5 (.act 1), List.replicate 6 (.act 0)])
    (fun state => (state.thrds 1).released = 1 ∧ (1, .thrdSuccess, 7) ∈ state.joins)
    (fun _ => inferInstanceAs (Decidable (_ ∧ _))) (by decide)
  exact ⟨state, thrdJoin_safe reached, check⟩

theorem not_joinsSafely : ¬ ∀ state, (joiningSystem 2).Reachable state → JoinsSafely state ∧
    ∀ action next, (joiningSystem 2).step state action = some next → FailsSafely state next := by
  intro always
  obtain ⟨state, reached, released, running, isBorn⟩ := @System.exists_of_run _ _ (joiningSystem 2)
    (fun _ _ => True) _ twoThreads twoThreads_initial
    (List.flatten [[.call 0 (.thrdJoin 1)], List.replicate 8 (.act 0),
      [.returns 0 (.error .ecanceled)], List.replicate 5 (.act 0)])
    (fun state => (state.thrds 1).released = 1 ∧ (state.thrds 1).terminated = false ∧
      state.place 1 = .running)
    (fun _ => inferInstanceAs (Decidable (_ ∧ _ ∧ _))) (by decide)
  have terminated := (always state reached).1.terminated 1 (by simp [isBorn]) (Or.inr (by simp [released]))
  rw [running] at terminated
  cases terminated

/-- A second join is refused, and returns, after the first has taken the thread out of the list. -/
theorem second_join_fails : ∃ state next : Joining 3, (joiningSystem 3).Reachable state ∧
    (joiningSystem 3).step state (.act 2) = some next ∧ ¬ FailsSafely state next := by
  obtain ⟨state, reached, isAt, owner, unlinked⟩ := @System.exists_of_run _ _ (joiningSystem 3)
    (fun _ _ => True) _ ⟨fun _ => { linked := true }, fun _ => .running, none, fun _ => 0, 0, fun _ => false, []⟩
    ⟨fun _ => Or.inr ⟨List.mem_cons_self, rfl⟩, rfl, rfl, fun _ => rfl, rfl⟩
    (List.flatten [[.call 1 (.thrdExit 7)], List.replicate 5 (.act 1), [.call 0 (.thrdJoin 1)],
      List.replicate 7 (.act 0), [.call 2 (.thrdJoin 1)], List.replicate 3 (.act 2)])
    (fun state => state.place 2 = .join 1 .refuse ∧ state.thrdsLock = some 2 ∧
      (state.thrds 1).linked = false)
    (fun _ => inferInstanceAs (Decidable (_ ∧ _ ∧ _))) (by decide)
  have moved : state.step (.act 2) = some { (state.unlock 2).goes 2 .running with
      joins := (1, .thrdError, 0) :: state.joins } := by
    simp only [Joining.step, Joining.advance, isAt, Joining.advanceJoin, if_pos owner]
  refine ⟨state, _, reached, moved, fun safely => ?_⟩
  have linked : (state.thrds 1).linked := (safely 1 .thrdError 0 rfl (by decide)).1
  rw [unlinked] at linked
  cases linked

end

end PicoToolkit
