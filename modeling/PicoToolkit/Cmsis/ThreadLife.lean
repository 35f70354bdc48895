import PicoToolkit.Cmsis.WaiterCount

/-!
What is known about threads in every run: who is reaped has ended, who is cleaned up has left the list of all
threads, and a joiner goes on only after the end of the thread that it joins.
-/

namespace PicoToolkit

open Transition Interleaving

namespace RtosThread

def marked (thread : RtosThread) : Bool := decide (thread.attrBits &&& osReapThread ≠ 0)

theorem reapable_eq (thread : RtosThread) : thread.reapable = (thread.registered && thread.marked) := rfl

theorem joinable_markReap (thread : RtosThread) : thread.markReap.joinable = thread.joinable := by
  rw [joinable, markReap, BitVec.and_or_distrib_right]
  exact congrArg (fun bits => decide (bits ≠ 0)) BitVec.or_zero

theorem marked_markReap (thread : RtosThread) : thread.markReap.marked = true := by
  apply decide_eq_true
  intro none_
  have bit := congrArg (fun bits => bits.getLsbD 30) none_
  simp [markReap, osReapThread] at bit

theorem joinable_detach (thread : RtosThread) : thread.detach.joinable = false := by
  apply decide_eq_false
  rw [not_not, detach, BitVec.and_assoc, show ~~~osThreadJoinable &&& osThreadJoinable = 0 by decide]
  exact BitVec.and_zero

theorem marked_detach (thread : RtosThread) : thread.detach.marked = thread.marked := by
  rw [marked, detach, BitVec.and_assoc, show ~~~osThreadJoinable &&& osReapThread = osReapThread by decide]
  rfl

structure Becomes (thread after : RtosThread) : Prop where
  ended : thread.state = .terminated →
    after.state = .terminated ∧ after.endedDetached = thread.endedDetached
  left : thread.registered = false → after.registered = false
  detached : thread.joinable = false → after.joinable = false
  marked : thread.marked = true → after.marked = true

theorem Becomes.refl (thread : RtosThread) : thread.Becomes thread :=
  ⟨fun ended => ⟨ended, rfl⟩, id, id, id⟩

theorem Becomes.trans {thread middle after : RtosThread} (first : thread.Becomes middle)
    (second : middle.Becomes after) : thread.Becomes after := by
  refine ⟨fun ended => ?_, second.left ∘ first.left, second.detached ∘ first.detached,
    second.marked ∘ first.marked⟩
  obtain ⟨stays, same⟩ := first.ended ended
  exact ⟨(second.ended stays).1, (second.ended stays).2.trans same⟩

def Ended (thread : RtosThread) : Prop := thread.state = .terminated

def EndedJoinable (thread : RtosThread) : Prop :=
  thread.state = .terminated ∧ thread.endedDetached = false

def Gone (thread : RtosThread) : Prop := thread.state = .terminated ∧ thread.registered = false

def Reaped (thread : RtosThread) : Prop := thread.Gone ∧ thread.marked = true

def Joined (thread : RtosThread) : Prop := thread.Gone ∧ thread.endedDetached = false

def IsReaper (thread : RtosThread) : Prop :=
  thread.joinable = false ∧ thread.valid = true ∧
    (thread.state = .terminated → thread.endedDetached = true)

def Lasts (property : RtosThread → Prop) : Prop :=
  ∀ thread after : RtosThread, thread.Becomes after → property thread → property after

theorem lasts_endedJoinable : Lasts EndedJoinable := by
  rintro thread after becomes ⟨ended, joinable⟩
  exact ⟨(becomes.ended ended).1, (becomes.ended ended).2.trans joinable⟩

theorem lasts_gone : Lasts Gone := fun _ _ becomes gone =>
  ⟨(becomes.ended gone.1).1, becomes.left gone.2⟩

theorem lasts_reaped : Lasts Reaped := fun _ _ becomes reaped =>
  ⟨lasts_gone _ _ becomes reaped.1, becomes.marked reaped.2⟩

theorem lasts_joined : Lasts Joined := fun _ _ becomes joined =>
  ⟨lasts_gone _ _ becomes joined.1, (becomes.ended joined.1.1).2.trans joined.2⟩

theorem lasts_detached : Lasts fun thread => thread.joinable = false := fun _ _ becomes =>
  becomes.detached

end RtosThread

open RtosThread

namespace ThreadsState

def Has (state : ThreadsState) (index : Nat) (property : RtosThread → Prop) : Prop :=
  ∃ thread, state.threads[index]? = some thread ∧ property thread

theorem Has.imp {state : ThreadsState} {index : Nat} {property weaker : RtosThread → Prop}
    (has : state.Has index property) (implies : ∀ thread, property thread → weaker thread) :
    state.Has index weaker := by
  obtain ⟨thread, found, holds⟩ := has
  exact ⟨thread, found, implies thread holds⟩

theorem Has.of_found {state : ThreadsState} {index : Nat} {property : RtosThread → Prop}
    (has : state.Has index property) {thread : RtosThread}
    (found : state.threads[index]? = some thread) : property thread := by
  obtain ⟨same, isSame, holds⟩ := has
  obtain rfl := Option.some_inj.mp (isSame.symm.trans found)
  exact holds

theorem Has.lt {state : ThreadsState} {index : Nat} {property : RtosThread → Prop}
    (has : state.Has index property) : index < state.threads.length := by
  obtain ⟨_, found, _⟩ := has
  exact (List.getElem?_eq_some_iff.mp found).1

end ThreadsState

open ThreadsState

def Takes {wish : FlagsWish} : WaitPlace wish ⊕ Option Word → Prop
  | .inl (.leave exit) => exit = .consume
  | .inl .consume => True
  | .inr (some value) => value &&& osFlagsError = 0
  | _ => False

def MayWait (state : ThreadsState) (index : Nat) (object : EventObject) (wish : FlagsWish)
    (takes : Prop) : AfterWait → Prop
  | .leave => ∀ thread, object ≠ .joiner thread
  | .join thread => object = .joiner thread ∧ wish = joinWish ∧
      (takes → state.Has thread EndedJoinable)
  | .reap => state.reaper = some index ∧ object = .flags index ∧ wish = reaperWish

def MayClean (state : ThreadsState) (index thread : Nat) : Cleaner → Prop
  | .joiner => state.Has thread Joined
  | .reaper _ => state.reaper = some index ∧ state.Has thread Reaped

def MayBe (state : ThreadsState) (index : Nat) : ThreadPlace → Prop
  | .wait object wish _ place after =>
      (∀ thread, object = .flags thread → thread = index) ∧
        MayWait state index object wish (Takes place) after
  | .remove thread => state.Has thread EndedJoinable
  | .clean thread _ cleaner => MayClean state index thread cleaner
  | .terminate thread => state.Has thread fun target =>
      target.joinable = true ∨ state.reaper.isSome = true
  | .detach thread => state.reaper.isSome = true ∧ thread < state.threads.length
  | .detached thread => state.reaper.isSome = true ∧
      state.Has thread fun target => target.joinable = false
  | .collect _ | .pop _ => state.reaper = some index
  | _ => True

structure Lives (state : ThreadsState) (index : Nat) (thread : RtosThread) : Prop where
  marked : thread.marked = true → thread.state = .terminated ∧ thread.joinable = false
  invalid : thread.valid = false → thread.Gone
  ended : thread.endedDetached = true → thread.state = .terminated ∧ thread.marked = true
  place : MayBe state index thread.place

structure Life (state : ThreadsState) : Prop where
  threads : ∀ index thread, state.threads[index]? = some thread → Lives state index thread
  joined : ∀ index, state.words (.joiner index) someFlags.flags &&& rtosThreadJoined ≠ 0 →
    state.Has index EndedJoinable
  fresh : ∀ index, state.threads.length ≤ index → state.words (.flags index) someFlags.flags = 0
  reapList : ∀ index ∈ state.reapList, state.Has index Reaped
  reaper : ∀ index, state.reaper = some index → state.Has index IsReaper

structure Later (state next : ThreadsState) : Prop where
  threads : ∀ (index : Nat) (thread : RtosThread), state.threads[index]? = some thread →
    ∃ after, next.threads[index]? = some after ∧ thread.Becomes after ∧
      (thread.joinable = true → after.joinable = true ∨ next.reaper.isSome = true)
  reaper : ∀ index, state.reaper = some index → next.reaper = some index

section Later

variable {state middle next : ThreadsState} {index : Nat} {place : ThreadPlace}
  {update : RtosThread → RtosThread} {property : RtosThread → Prop}

theorem Later.isSome (later : Later state next) (present : state.reaper.isSome = true) :
    next.reaper.isSome = true := by
  obtain ⟨reaper, isReaper⟩ := Option.isSome_iff_exists.mp present
  rw [later.reaper reaper isReaper]
  rfl

theorem Later.of_threads (threads : next.threads = state.threads) (reaper : next.reaper = state.reaper) :
    Later state next :=
  ⟨fun _ thread found => ⟨thread, threads ▸ found, .refl thread, Or.inl⟩,
    fun _ isReaper => reaper ▸ isReaper⟩

theorem Later.refl (state : ThreadsState) : Later state state := .of_threads rfl rfl

theorem Later.trans (first : Later state middle) (second : Later middle next) : Later state next := by
  refine ⟨fun index thread found => ?_, fun index isReaper => second.reaper index
    (first.reaper index isReaper)⟩
  obtain ⟨between, isBetween, becomes, detaches⟩ := first.threads index thread found
  obtain ⟨after, isAfter, becomesAfter, detachesAfter⟩ := second.threads index between isBetween
  refine ⟨after, isAfter, becomes.trans becomesAfter, fun joinable => ?_⟩
  rcases detaches joinable with still | present
  · exact detachesAfter still
  · exact Or.inr (second.isSome present)

theorem Later.has (later : Later state next) (lasts : Lasts property) (has : state.Has index property) :
    next.Has index property := by
  obtain ⟨thread, found, holds⟩ := has
  obtain ⟨after, isAfter, becomes, _⟩ := later.threads index thread found
  exact ⟨after, isAfter, lasts thread after becomes holds⟩

theorem Later.length_le (later : Later state next) : state.threads.length ≤ next.threads.length := by
  by_contra less
  obtain ⟨after, isAfter, _⟩ := later.threads next.threads.length _
    (List.getElem?_eq_getElem (Nat.lt_of_not_le less))
  exact absurd (List.getElem?_eq_some_iff.mp isAfter).1 (Nat.lt_irrefl _)

theorem MayBe.later (may : MayBe state index place) (later : Later state next) :
    MayBe next index place := by
  cases place with
  | wait object wish timeout place after =>
      refine ⟨may.1, ?_⟩
      have mayWait := may.2
      cases after with
      | leave => exact mayWait
      | join thread =>
          exact ⟨mayWait.1, mayWait.2.1, fun takes =>
            later.has lasts_endedJoinable (mayWait.2.2 takes)⟩
      | reap => exact ⟨later.reaper index mayWait.1, mayWait.2⟩
  | remove thread => exact later.has lasts_endedJoinable may
  | clean thread part cleaner =>
      cases cleaner with
      | joiner => exact later.has lasts_joined may
      | reaper flags => exact ⟨later.reaper index may.1, later.has lasts_reaped may.2⟩
  | terminate thread =>
      obtain ⟨target, found, joinable | present⟩ := may
      · obtain ⟨after, isAfter, _, detaches⟩ := later.threads thread target found
        exact ⟨after, isAfter, detaches joinable⟩
      · obtain ⟨after, isAfter, _⟩ := later.threads thread target found
        exact ⟨after, isAfter, Or.inr (later.isSome present)⟩
  | detach thread => exact ⟨later.isSome may.1, Nat.lt_of_lt_of_le may.2 later.length_le⟩
  | detached thread => exact ⟨later.isSome may.1, later.has lasts_detached may.2⟩
  | collect flags => exact later.reaper index may
  | pop flags => exact later.reaper index may
  | _ => trivial

theorem Lives.later {thread : RtosThread} (lives : Lives state index thread)
    (later : Later state next) : Lives next index thread :=
  ⟨lives.marked, lives.invalid, lives.ended, lives.place.later later⟩

structure MayBecome (state : ThreadsState) (thread after : RtosThread) : Prop where
  becomes : thread.Becomes after
  detaches : thread.joinable = true → after.joinable = true ∨ state.reaper.isSome = true

theorem MayBecome.of_place (place : ThreadPlace) (thread : RtosThread) :
    MayBecome state thread { thread with place := place } :=
  ⟨⟨fun ended => ⟨ended, rfl⟩, id, id, id⟩, Or.inl⟩

theorem later_change (may : ∀ thread, state.threads[index]? = some thread →
    MayBecome state thread (update thread)) : Later state (state.change index update) := by
  refine ⟨fun other thread found => ?_, fun _ => id⟩
  by_cases isIt : index = other
  · subst isIt
    refine ⟨update thread, ?_, (may thread found).becomes, (may thread found).detaches⟩
    rw [change, List.getElem?_modify_eq, found]
    rfl
  · refine ⟨thread, ?_, .refl thread, Or.inl⟩
    rw [change, List.getElem?_modify_ne _ _ isIt]
    exact found

theorem later_move : Later state (state.move index place) :=
  later_change fun thread _ => .of_place place thread

theorem getElem?_change {other : Nat} {after : RtosThread}
    (found : (state.change index update).threads[other]? = some after) :
    (∃ thread, state.threads[other]? = some thread ∧ other = index ∧ after = update thread) ∨
      other ≠ index ∧ state.threads[other]? = some after := by
  rw [change] at found
  by_cases isIt : index = other
  · subst isIt
    rw [List.getElem?_modify_eq] at found
    obtain ⟨thread, isThread, rfl⟩ := Option.map_eq_some_iff.mp found
    exact Or.inl ⟨thread, isThread, rfl, rfl⟩
  · rw [List.getElem?_modify_ne _ _ isIt] at found
    exact Or.inr ⟨Ne.symm isIt, found⟩

theorem getElem?_change_self {thread : RtosThread} (found : state.threads[index]? = some thread) :
    (state.change index update).threads[index]? = some (update thread) := by
  rw [change, List.getElem?_modify_eq, found]
  rfl

theorem getElem?_change_ne {other : Nat} (different : other ≠ index) :
    (state.change index update).threads[other]? = state.threads[other]? :=
  List.getElem?_modify_ne _ _ (Ne.symm different)

theorem has_change {other : Nat} {property after : RtosThread → Prop} (has : state.Has other property)
    (changed : other = index → ∀ thread, state.threads[other]? = some thread → property thread →
      after (update thread))
    (kept : other ≠ index → ∀ thread, state.threads[other]? = some thread → property thread →
      after thread) : (state.change index update).Has other after := by
  obtain ⟨thread, found, holds⟩ := has
  by_cases isIt : other = index
  · subst isIt
    exact ⟨update thread, getElem?_change_self found, changed rfl thread found holds⟩
  · exact ⟨thread, (getElem?_change_ne isIt).trans found, kept isIt thread found holds⟩

end Later

section Life

variable {state next : ThreadsState} {index : Nat} {place : ThreadPlace} {own : RtosThread}
  {update : RtosThread → RtosThread} {object : EventObject}

theorem Life.congr (life : Life state) (threads : next.threads = state.threads)
    (reaper : next.reaper = state.reaper) (words : next.words = state.words)
    (reapList : ∀ index ∈ next.reapList, index ∈ state.reapList) : Life next := by
  have later : Later state next := .of_threads threads reaper
  refine ⟨fun index thread found => ?_, fun index isSet => ?_, fun index atLeast => ?_,
    fun index member => ?_, fun index isReaper => ?_⟩
  · exact (life.threads index thread (threads ▸ found)).later later
  · exact later.has lasts_endedJoinable (life.joined index (words ▸ isSet))
  · rw [words]
    exact life.fresh index (threads ▸ atLeast)
  · exact later.has lasts_reaped (life.reapList index (reapList index member))
  · obtain ⟨thread, found, holds⟩ := life.reaper index (reaper ▸ isReaper)
    exact ⟨thread, threads ▸ found, holds⟩

theorem Life.change (life : Life state)
    (may : ∀ thread, state.threads[index]? = some thread → MayBecome state thread (update thread))
    (reaps : state.reaper = some index → ∀ thread, state.threads[index]? = some thread →
      thread.IsReaper → (update thread).IsReaper)
    (lives : ∀ thread, state.threads[index]? = some thread → Lives state index thread →
      Later state (state.change index update) → Lives (state.change index update) index (update thread)) :
    Life (state.change index update) := by
  have later := later_change may
  refine ⟨fun other after found => ?_, fun other isSet => ?_, fun other atLeast => ?_,
    fun other member => ?_, fun other isReaper => ?_⟩
  · rcases getElem?_change found with ⟨thread, isThread, rfl, rfl⟩ | ⟨_, isThread⟩
    · exact lives thread isThread (life.threads other thread isThread) later
    · exact (life.threads other after isThread).later later
  · exact later.has lasts_endedJoinable (life.joined other isSet)
  · rw [ThreadsState.change, List.length_modify] at atLeast
    exact life.fresh other atLeast
  · exact later.has lasts_reaped (life.reapList other member)
  · refine has_change (life.reaper other isReaper) ?_ fun _ _ _ holds => holds
    rintro rfl thread found holds
    exact reaps isReaper thread found holds

theorem Life.move (life : Life state) (may : MayBe state index place) :
    Life (state.move index place) := by
  refine life.change (fun thread _ => .of_place place thread) (fun _ _ _ isReaper => isReaper)
    fun thread found lives later => ?_
  exact ⟨lives.marked, lives.invalid, lives.ended, may.later later⟩

theorem Life.abort (life : Life state) (aborter : Aborter) : Life (state.abort aborter) :=
  life.congr rfl rfl rfl fun _ => id

theorem Life.recordDelete (life : Life state) (object : EventObject) (cleans : Bool) :
    Life (state.recordDelete object cleans) :=
  life.congr rfl rfl rfl fun _ => id

/-- The flags of a joiner are only set when the thread has ended, and those of a thread only when there
is one. -/
theorem Life.setWord (life : Life state) {address value : Word}
    (joins : ∀ index, object = .joiner index → address = someFlags.flags →
      value &&& rtosThreadJoined ≠ 0 → state.Has index EndedJoinable)
    (exists_ : ∀ index, object = .flags index → index < state.threads.length) :
    Life (state.setWord object address value) := by
  have later : Later state (state.setWord object address value) := .of_threads rfl rfl
  refine ⟨fun index thread found => (life.threads index thread found).later later,
    fun index isSet => later.has lasts_endedJoinable ?_, fun index atLeast => ?_,
    fun index member => later.has lasts_reaped (life.reapList index member), life.reaper⟩
  · change Function.update state.words object _ (.joiner index) someFlags.flags &&& _ ≠ 0 at isSet
    by_cases isIt : EventObject.joiner index = object
    · rw [isIt, Function.update_self] at isSet
      by_cases isFlags : someFlags.flags = address
      · rw [isFlags, Function.update_self] at isSet
        exact joins index isIt.symm isFlags.symm isSet
      · rw [Function.update_of_ne isFlags, ← isIt] at isSet
        exact life.joined index isSet
    · rw [Function.update_of_ne isIt] at isSet
      exact life.joined index isSet
  · change Function.update state.words object _ (.flags index) someFlags.flags = 0
    have other : EventObject.flags index ≠ object := by
      rintro rfl
      exact absurd (exists_ index rfl) (Nat.not_lt.mpr atLeast)
    rw [Function.update_of_ne other]
    exact life.fresh index atLeast

theorem Life.setFlags (life : Life state) (flags : Word)
    (joins : ∀ index, object = .joiner index → state.Has index EndedJoinable)
    (exists_ : ∀ index, object = .flags index → index < state.threads.length) :
    Life (state.setFlags object flags) :=
  life.setWord (fun index isJoiner _ _ => joins index isJoiner) exists_

theorem Life.setOrAbort (life : Life state) (flags : Word) (wakeStatus : Result)
    (joins : ∀ index, object = .joiner index → state.Has index EndedJoinable)
    (exists_ : ∀ index, object = .flags index → index < state.threads.length) :
    Life (state.setOrAbort object flags wakeStatus) := by
  rw [ThreadsState.setOrAbort]
  split
  · exact (life.setFlags flags joins exists_).abort _
  · exact life.setFlags flags joins exists_

theorem Life.kickReaper (life : Life state) (wakeStatus : Result) :
    Life (state.kickReaper wakeStatus) := by
  rw [ThreadsState.kickReaper]
  split
  · exact life.abort _
  · rename_i reaper isReaper
    split
    · refine life.setOrAbort _ _ (fun _ same => by cases same) ?_
      rintro index ⟨⟩
      exact (life.reaper reaper isReaper).lt
    · exact life.abort _

theorem Life.endTask (life : Life state) (found : state.threads[index]? = some own)
    (live : own.state ≠ .terminated) (wakeStatus : Result) :
    Life (state.endTask index own wakeStatus) := by
  have isOwn : ∀ thread, state.threads[index]? = some thread → thread = own := fun thread isThread =>
    Option.some_inj.mp (isThread.symm.trans found)
  rw [ThreadsState.endTask]
  split
  · rename_i joinable
    have ends : Life (state.change index RtosThread.endTask) := by
      refine life.change (fun thread isThread => ?_) (fun _ thread isThread isReaper => ?_)
        fun thread isThread lives later => ?_
      · obtain rfl := isOwn thread isThread
        exact ⟨⟨fun ended => (live ended).elim, id, id, id⟩, Or.inl⟩
      · obtain rfl := isOwn thread isThread
        cases isReaper.1.symm.trans joinable
      · obtain rfl := isOwn thread isThread
        refine ⟨fun marked => (live (lives.marked marked).1).elim, fun invalid => ?_, fun ended => ?_,
          lives.place.later later⟩
        · exact (live (lives.invalid invalid).1).elim
        · change (!thread.joinable) = true at ended
          rw [joinable] at ended
          cases ended
    refine ends.setOrAbort _ _ ?_ fun _ same => by cases same
    rintro other ⟨⟩
    refine ⟨own.endTask, getElem?_change_self found, rfl, ?_⟩
    change (!own.joinable) = false
    rw [joinable]
    rfl
  · rename_i detached
    rw [Bool.not_eq_true] at detached
    have both : (state.change index RtosThread.endTask).change index RtosThread.markReap =
        state.change index (RtosThread.markReap ∘ RtosThread.endTask) := by
      simp only [ThreadsState.change, List.modify_modify_eq]
    rw [both]
    have stays : own.endTask.markReap.joinable = false := (joinable_markReap _).trans detached
    apply Life.kickReaper
    refine life.change (fun thread isThread => ?_) (fun _ thread isThread isReaper => ?_)
      fun thread isThread lives later => ?_
    · obtain rfl := isOwn thread isThread
      refine ⟨⟨fun ended => (live ended).elim, id, fun _ => stays, fun _ => marked_markReap _⟩, ?_⟩
      intro joinable
      cases joinable.symm.trans detached
    · obtain rfl := isOwn thread isThread
      refine ⟨stays, isReaper.2.1, fun _ => ?_⟩
      change (!thread.joinable) = true
      rw [detached]
      rfl
    · obtain rfl := isOwn thread isThread
      refine ⟨fun _ => ⟨rfl, stays⟩, fun invalid => ?_, fun _ => ⟨rfl, marked_markReap _⟩,
        lives.place.later later⟩
      exact (live (lives.invalid invalid).1).elim

theorem later_append {fresh : RtosThread} (threads : next.threads = state.threads ++ [fresh])
    (reaper : ∀ index, state.reaper = some index → next.reaper = some index) : Later state next := by
  refine ⟨fun index thread found => ⟨thread, ?_, .refl thread, Or.inl⟩, reaper⟩
  rw [threads, List.getElem?_append_left (List.getElem?_eq_some_iff.mp found).1]
  exact found

theorem Life.append (life : Life state) {fresh : RtosThread}
    (threads : next.threads = state.threads ++ [fresh]) (words : next.words = state.words)
    (reapList : next.reapList = state.reapList)
    (reaper : next.reaper = state.reaper ∨
      state.reaper = none ∧ next.reaper = some state.threads.length ∧ fresh.IsReaper)
    (lives : Lives next state.threads.length fresh) : Life next := by
  have keeps : ∀ index, state.reaper = some index → next.reaper = some index := by
    intro index isReaper
    rcases reaper with same | ⟨none_, _⟩
    · exact same.trans isReaper
    · cases none_.symm.trans isReaper
  have later := later_append threads keeps
  have last : next.threads[state.threads.length]? = some fresh := by
    rw [threads, List.getElem?_concat_length]
  refine ⟨fun index thread found => ?_, fun index isSet => ?_, fun index atLeast => ?_,
    fun index member => ?_, fun index isReaper => ?_⟩
  · rw [threads] at found
    rcases Nat.lt_or_ge index state.threads.length with isOld | atLeast
    · rw [List.getElem?_append_left isOld] at found
      exact (life.threads index thread found).later later
    · obtain ⟨bound, _⟩ := List.getElem?_eq_some_iff.mp found
      rw [List.length_append, List.length_singleton] at bound
      obtain rfl : index = state.threads.length := by omega
      rw [List.getElem?_concat_length] at found
      obtain rfl := Option.some_inj.mp found
      exact lives
  · exact later.has lasts_endedJoinable (life.joined index (words ▸ isSet))
  · rw [threads, List.length_append] at atLeast
    rw [words]
    exact life.fresh index (by omega)
  · exact later.has lasts_reaped (life.reapList index (reapList ▸ member))
  · rcases reaper with same | ⟨_, isLast, fits⟩
    · obtain ⟨thread, found, holds⟩ := life.reaper index (same ▸ isReaper)
      refine ⟨thread, ?_, holds⟩
      rw [threads, List.getElem?_append_left (List.getElem?_eq_some_iff.mp found).1]
      exact found
    · obtain rfl := Option.some_inj.mp (isLast.symm.trans isReaper)
      exact ⟨fresh, last, fits⟩

theorem lives_new {attrBits : Word} (unmarked : attrBits &&& osReapThread = 0)
    (may : MayBe state index place) : Lives state index { RtosThread.new attrBits with place := place } := by
  refine ⟨fun marked => ?_, fun invalid => ?_, nofun, may⟩
  · exact absurd unmarked (of_decide_eq_true marked)
  · cases invalid

theorem mayBe_outside : MayBe state index .outside := trivial

theorem mayBe_waitFor {wish : FlagsWish} {timeout : Word} {after : AfterWait}
    (own : ∀ thread, object = .flags thread → thread = index)
    (may : ∀ takes, (takes → False) → MayWait state index object wish takes after) :
    MayBe state index (waitFor object wish timeout after) := by
  rw [waitFor]
  refine ⟨own, may _ ?_⟩
  rw [osEventFlagsWaitStart]
  split
  · exact fun takes => absurd takes (show ¬ osFlagsErrorParameter &&& osFlagsError = 0 by decide)
  · split
    · rename_i refused
      exact absurd rfl refused
    · split
      · rename_i refused
        exact absurd rfl refused
      · exact id

theorem ThreadsState.ensureReaper_isSome (state : ThreadsState) :
    state.ensureReaper.reaper.isSome = true := by
  rw [ensureReaper]
  split
  · rename_i reaper isReaper
    rw [isReaper]
    rfl
  · rfl

theorem later_ensureReaper : Later state state.ensureReaper := by
  rw [ensureReaper]
  split
  · exact .refl state
  · rename_i none_
    refine later_append rfl fun index isReaper => ?_
    cases none_.symm.trans isReaper

theorem mayBe_reaperWait (isReaper : state.reaper = some index) :
    MayBe state index (ThreadsState.reaperWait index) := by
  apply mayBe_waitFor
  · rintro thread ⟨⟩
    rfl
  · exact fun _ _ => ⟨isReaper, rfl, rfl⟩

theorem Life.ensureReaper (life : Life state) : Life state.ensureReaper := by
  rw [ThreadsState.ensureReaper]
  split
  · exact life
  · rename_i none_
    have detached : (RtosThread.new osDynamicAlloc).joinable = false := by decide
    refine life.append rfl rfl rfl
      (Or.inr ⟨none_, rfl, detached, rfl, fun same => by cases same⟩) ?_
    exact lives_new (by decide) (mayBe_reaperWait rfl)

theorem Life.ensureFor (life : Life state) (thread : RtosThread) : Life (ensureFor thread state) := by
  rw [PicoToolkit.ensureFor]
  split
  · exact life
  · exact life.ensureReaper

theorem mayBe_terminate {thread : Nat} (found : state.threads[thread]? = some own) :
    MayBe (ensureFor own state) index (.terminate thread) := by
  rw [ensureFor]
  split
  · rename_i joinable
    exact ⟨own, found, Or.inl joinable⟩
  · obtain ⟨after, isAfter, _⟩ := later_ensureReaper.threads thread own found
    exact ⟨after, isAfter, Or.inr state.ensureReaper_isSome⟩

theorem Life.osThreadExit (life : Life state) (found : state.threads[index]? = some own) :
    Life (osThreadExit index own state) := by
  rw [PicoToolkit.osThreadExit]
  split
  · exact (life.ensureFor own).move (mayBe_terminate found)
  · exact life.abort _

theorem Life.reaperDone (life : Life state) (isReaper : state.reaper = some index) (flags : Word) :
    Life (reaperDone flags index state) := by
  rw [PicoToolkit.reaperDone]
  split
  · exact life.abort _
  · exact life.move (mayBe_reaperWait isReaper)

theorem Life.collect (life : Life state) : Life state.collect := by
  have later : Later state state.collect := by
    refine ⟨fun index thread found => ?_, fun _ => id⟩
    refine ⟨if thread.reapable then thread.unregister else thread, ?_, ?_⟩
    · rw [ThreadsState.collect, List.getElem?_map, found]
      rfl
    · split
      · exact ⟨⟨fun ended => ⟨ended, rfl⟩, fun _ => rfl, id, id⟩, Or.inl⟩
      · exact ⟨.refl thread, Or.inl⟩
  have isThere : ∀ {index : Nat} {after : RtosThread}, state.collect.threads[index]? = some after →
      ∃ thread : RtosThread, state.threads[index]? = some thread ∧
        after = if thread.reapable then thread.unregister else thread := by
    intro index after found
    rw [ThreadsState.collect, List.getElem?_map] at found
    obtain ⟨thread, isThread, isAfter⟩ := Option.map_eq_some_iff.mp found
    exact ⟨thread, isThread, isAfter.symm⟩
  refine ⟨fun index after found => ?_, fun index isSet => ?_, fun index atLeast => ?_,
    fun index member => ?_, fun index isReaper => ?_⟩
  · obtain ⟨thread, isThread, rfl⟩ := isThere found
    have lives := (life.threads index thread isThread).later later
    split
    · exact ⟨lives.marked, fun invalid => ⟨(lives.invalid invalid).1, rfl⟩, lives.ended, lives.place⟩
    · exact lives
  · exact later.has lasts_endedJoinable (life.joined index isSet)
  · rw [ThreadsState.collect, List.length_map] at atLeast
    exact life.fresh index atLeast
  · obtain ⟨_, isReapable⟩ := List.mem_filter.mp member
    obtain ⟨thread, found, reapable⟩ := (Option.any_eq_true _ _).mp isReapable
    rw [reapable_eq, Bool.and_eq_true] at reapable
    refine ⟨thread.unregister, ?_, ⟨((life.threads index thread found).marked reapable.2).1, rfl⟩,
      reapable.2⟩
    rw [ThreadsState.collect, List.getElem?_map, found, Option.map_some, reapable_eq, reapable.1,
      reapable.2]
    rfl
  · obtain ⟨thread, found, fits⟩ := life.reaper index isReaper
    refine ⟨if thread.reapable then thread.unregister else thread, ?_, ?_⟩
    · rw [ThreadsState.collect, List.getElem?_map, found]
      rfl
    · split
      · exact fits
      · exact fits

theorem later_unregister {thread : Nat} : Later state (state.unregister thread) := by
  have changed : Later state (state.change thread RtosThread.unregister) :=
    later_change fun _ _ => ⟨⟨fun ended => ⟨ended, rfl⟩, fun _ => rfl, id, id⟩, Or.inl⟩
  exact changed.trans (.of_threads rfl rfl)

theorem Life.unregister (life : Life state) (thread : Nat) : Life (state.unregister thread) := by
  have changed : Life (state.change thread RtosThread.unregister) := by
    refine life.change (fun _ _ => ⟨⟨fun ended => ⟨ended, rfl⟩, fun _ => rfl, id, id⟩, Or.inl⟩)
      (fun _ _ _ isReaper => isReaper) fun target found lives later => ?_
    exact ⟨lives.marked, fun invalid => ⟨(lives.invalid invalid).1, rfl⟩, lives.ended,
      lives.place.later later⟩
  exact changed.congr rfl rfl rfl fun index member => List.mem_of_mem_filter member

theorem Life.reclaim (life : Life state) {thread : Nat} (gone : state.Has thread RtosThread.Gone)
    (notReaper : state.reaper ≠ some thread) (byReaper : Bool) :
    Life (state.reclaim index thread byReaper) := by
  have changed : Life (state.change thread RtosThread.clearMarker) := by
    refine life.change (fun _ _ => ⟨⟨fun ended => ⟨ended, rfl⟩, id, id, id⟩, Or.inl⟩)
      (fun isReaper => (notReaper isReaper).elim) fun target found lives later => ?_
    have isGone : target.Gone := gone.of_found found
    exact ⟨lives.marked, fun _ => isGone, lives.ended, lives.place.later later⟩
  exact changed.congr rfl rfl rfl fun _ => id

theorem Life.afterWait (life : Life state) {wish : FlagsWish} {timeout value : Word} {after : AfterWait}
    (may : MayBe state index (.wait object wish timeout (.inr (some value)) after)) :
    Life (afterWait index value state after) := by
  cases after with
  | leave => exact life.move mayBe_outside
  | join thread =>
      apply life.move
      split
      · exact mayBe_outside
      · rename_i ok
        exact may.2.2.2 (not_not.mp ok)
  | reap =>
      rw [PicoToolkit.afterWait]
      split
      · exact life.abort _
      · split
        · exact life.move may.2.1
        · exact life.reaperDone may.2.1 value

theorem MayBe.waitStep {wish : FlagsWish} {timeout : Word} {after : AfterWait}
    {before goal : WaitPlace wish ⊕ Option Word} (life : Life state)
    (may : MayBe state index (.wait object wish timeout before after))
    (takes : Takes goal →
      Takes before ∨ wish.satisfied (state.words object someFlags.flags) = true) :
    MayBe state index (.wait object wish timeout goal after) := by
  refine ⟨may.1, ?_⟩
  cases after with
  | leave => exact may.2
  | join thread =>
      obtain ⟨isJoiner, isWish, has⟩ := may.2
      refine ⟨isJoiner, isWish, fun goal => ?_⟩
      rcases takes goal with already | satisfied
      · exact has already
      · rw [isJoiner, isWish] at satisfied
        exact life.joined thread (of_decide_eq_true satisfied)
  | reap => exact may.2

theorem and_ne_zero_of_and {word mask flags : Word} (isSet : word &&& mask &&& flags ≠ 0) :
    word &&& flags ≠ 0 := by
  intro none_
  apply isSet
  rw [BitVec.and_assoc, BitVec.and_comm mask, ← BitVec.and_assoc, none_]
  exact BitVec.zero_and

theorem Life.waitStep (life : Life state) (found : state.threads[index]? = some own)
    {wish : FlagsWish} {timeout : Word} {after : AfterWait} {place : WaitPlace wish}
    (isPlace : own.place = .wait object wish timeout (.inl place) after) {answer : Result}
    (moved : waitStep index object wish timeout after place answer state = some next) : Life next := by
  have may := (life.threads index own found).place
  rw [isPlace] at may
  have known : ∀ thread, object = .flags thread → thread < state.threads.length := by
    intro thread isFlags
    rw [may.1 thread isFlags]
    exact (List.getElem?_eq_some_iff.mp found).1
  have writes : ∀ value goal,
      (value &&& rtosThreadJoined ≠ 0 →
        state.words object someFlags.flags &&& rtosThreadJoined ≠ 0) →
      (Takes goal → Takes (.inl place) ∨
        wish.satisfied (state.words object someFlags.flags) = true) →
      Life ((state.setWord object someFlags.flags value).move index
        (.wait object wish timeout goal after)) := by
    intro value goal lowers takes
    have written : Life (state.setWord object someFlags.flags value) := by
      refine life.setWord ?_ known
      rintro thread rfl - isSet
      exact life.joined thread (lowers isSet)
    exact written.move ((may.waitStep life takes).later (.of_threads rfl rfl))
  have counts : ∀ value goal,
      (Takes goal → Takes (.inl place) ∨
        wish.satisfied (state.words object someFlags.flags) = true) →
      Life ((state.setWord object someFlags.waiters value).move index
        (.wait object wish timeout goal after)) := by
    intro value goal takes
    have written : Life (state.setWord object someFlags.waiters value) :=
      life.setWord (fun _ _ isFlags => (someFlags.apart isFlags.symm).elim) known
    exact written.move ((may.waitStep life takes).later (.of_threads rfl rfl))
  cases place with
  | enter =>
      obtain rfl := Option.some_inj.mp moved
      exact counts _ _ False.elim
  | load =>
      obtain rfl := Option.some_inj.mp moved
      refine writes _ _ id fun takes => Or.inr ?_
      split at takes
      · assumption
      · split at takes
        · cases takes
        · split at takes
          · cases takes
          · exact takes.elim
  | leave exit =>
      obtain rfl := Option.some_inj.mp moved
      refine counts _ _ fun takes => Or.inl ?_
      cases exit with
      | consume => exact rfl
      | threadExit => exact takes.elim
      | resource => exact absurd takes (show ¬ osFlagsErrorResource &&& osFlagsError = 0 by decide)
      | timeout => exact absurd takes (show ¬ OsStatus.osErrorTimeout.code &&& osFlagsError = 0 by decide)
      | error => exact absurd takes (show ¬ OsStatus.osError.code &&& osFlagsError = 0 by decide)
  | consume =>
      obtain rfl := Option.some_inj.mp moved
      exact writes _ _ and_ne_zero_of_and fun _ => Or.inl trivial
  | wait expected =>
      obtain rfl := Option.some_inj.mp moved
      refine life.move (may.waitStep life fun takes => ?_)
      beta_reduce at takes
      split at takes
      · split at takes
        · cases takes
        · cases takes
      · exact takes.elim

theorem Life.cleanDelete (life : Life state) {thread : Nat} {cleaner : Cleaner}
    (may : MayClean state index thread cleaner) (part : CleanPart) :
    Life (cleanDelete index thread object part cleaner state) := by
  have recorded := life.recordDelete object true
  have later : Later state (state.recordDelete object true) := .of_threads rfl rfl
  have mayClean : MayBe state index (.clean thread part cleaner) := may
  unfold PicoToolkit.cleanDelete
  split
  · exact recorded.move (mayClean.later later)
  · cases cleaner with
    | joiner => exact recorded.move mayBe_outside
    | reaper flags => exact recorded.abort _

theorem Life.cleanMutexes (life : Life state) {thread : Nat} {cleaner : Cleaner}
    (may : MayClean state index thread cleaner) (answer : Result) :
    Life (cleanMutexes index thread cleaner answer state) := by
  have freed : Life (state.freeMutexes thread) := life.congr rfl rfl rfl fun _ => id
  have mayClean : MayBe state index (.clean thread .joiner cleaner) := may
  unfold PicoToolkit.cleanMutexes
  split
  · split
    · cases cleaner with
      | joiner => exact life.move mayBe_outside
      | reaper flags => exact life.abort _
    · exact freed.move (mayClean.later (.of_threads rfl rfl))
  · cases cleaner with
    | joiner => exact life.abort _
    | reaper flags => exact life.abort _

theorem Life.cleanStep (life : Life state) (found : state.threads[index]? = some own)
    (live : own.state ≠ .terminated) {thread : Nat} {cleaner : Cleaner}
    (may : MayClean state index thread cleaner) (part : CleanPart) (answer : Result) :
    Life (cleanStep index thread part cleaner answer state) := by
  cases part with
  | mutexes => exact life.cleanMutexes may answer
  | joiner => exact life.cleanDelete may .flags
  | flags => exact life.cleanDelete may .clear
  | clear =>
      cases cleaner with
      | joiner =>
          have isJoined : state.Has thread Joined := may
          have notReaper : state.reaper ≠ some thread := by
            intro isReaper
            obtain ⟨target, isTarget, gone, joinable⟩ := isJoined
            have fits := (life.reaper thread isReaper).of_found isTarget
            cases joinable.symm.trans (fits.2.2 gone.1)
          have cleared := @Life.reclaim _ index life _ (isJoined.imp fun _ joined => joined.1)
            notReaper false
          exact cleared.move mayBe_outside
      | reaper flags =>
          have notReaper : state.reaper ≠ some thread := by
            intro isReaper
            obtain rfl := Option.some_inj.mp (may.1.symm.trans isReaper)
            exact live (may.2.of_found found).1.1
          have cleared := @Life.reclaim _ index life _ (may.2.imp fun _ reaped => reaped.1)
            notReaper true
          exact cleared.move may.1

theorem ended_of_osThreadGetState {thread : RtosThread}
    (ended : osThreadGetState thread = .osThreadTerminated) : thread.state = .terminated := by
  rw [osThreadGetState] at ended
  split at ended
  · cases ended
  · split at ended
    · cases ended
    · split at ended
      · assumption
      · cases ended

theorem Life.detach (life : Life state) {thread : Nat} (may : MayBe state index (.detach thread)) :
    Life ((state.change thread RtosThread.detach).move index (.detached thread)) := by
  have changed : Life (state.change thread RtosThread.detach) := by
    refine life.change (fun target _ => ?_) (fun _ target _ isReaper => ?_)
      fun target found lives later => ?_
    · exact ⟨⟨fun ended => ⟨ended, rfl⟩, id, fun _ => joinable_detach target,
        fun marked => (marked_detach target).trans marked⟩, fun _ => Or.inr may.1⟩
    · exact ⟨joinable_detach target, isReaper.2⟩
    · refine ⟨fun marked => ?_, lives.invalid, fun ended => ?_, lives.place.later later⟩
      · rw [marked_detach] at marked
        exact ⟨(lives.marked marked).1, joinable_detach target⟩
      · exact ⟨(lives.ended ended).1, (marked_detach target).trans (lives.ended ended).2⟩
  refine changed.move ⟨may.1, ?_⟩
  have found := List.getElem?_eq_getElem may.2
  exact ⟨_, getElem?_change_self found, joinable_detach _⟩

theorem Life.markReap (life : Life state) {thread : Nat}
    (ended : state.Has thread fun target => target.state = .terminated ∧ target.joinable = false) :
    Life (state.change thread RtosThread.markReap) := by
  refine life.change (fun target found => ?_) (fun _ target _ isReaper => ?_)
    fun target found lives later => ?_
  · exact ⟨⟨fun ended => ⟨ended, rfl⟩, id, fun detached => (joinable_markReap target).trans detached,
      fun _ => marked_markReap target⟩, fun joinable => Or.inl ((joinable_markReap target).trans joinable)⟩
  · exact ⟨(joinable_markReap target).trans isReaper.1, isReaper.2⟩
  · have isEnded := ended.of_found found
    exact ⟨fun _ => ⟨isEnded.1, (joinable_markReap target).trans isEnded.2⟩, lives.invalid,
      fun _ => ⟨isEnded.1, marked_markReap target⟩, lives.place.later later⟩

theorem Life.threadStep (life : Life state) (found : state.threads[index]? = some own)
    (live : own.state ≠ .terminated) {answer : Result}
    (moved : threadStep index answer own state = some next) : Life next := by
  have may := (life.threads index own found).place
  cases threadMoves moved with
  | wait isPlace moved => exact life.waitStep found isPlace moved
  | exit _ => exact life.osThreadExit found
  | afterWait isPlace =>
      rw [isPlace] at may
      exact life.afterWait may
  | delete _ => exact (life.recordDelete _ false).move mayBe_outside
  | @remove thread isPlace =>
      rw [isPlace] at may
      refine (life.unregister thread).move ?_
      obtain ⟨target, isTarget, ended, joinable⟩ := may
      exact ⟨target.unregister, getElem?_change_self isTarget, ⟨ended, rfl⟩, joinable⟩
  | @clean thread part cleaner isPlace =>
      rw [isPlace] at may
      exact life.cleanStep found live may part answer
  | terminated _ _ _ => exact life.move trivial
  | terminate _ isTarget targetLive => exact (life.endTask isTarget targetLive answer).move mayBe_outside
  | ended _ | detached _ _ _ => exact life.move mayBe_outside
  | detach isPlace =>
      rw [isPlace] at may
      exact life.detach may
  | @mark thread target isPlace isTarget ended _ =>
      rw [isPlace] at may
      have marked := life.markReap
        ⟨target, isTarget, ended_of_osThreadGetState ended, may.2.of_found isTarget⟩
      exact marked.move mayBe_outside
  | @kick thread target reaper isPlace isTarget ended isReaper =>
      rw [isPlace] at may
      have marked := life.markReap
        ⟨target, isTarget, ended_of_osThreadGetState ended, may.2.of_found isTarget⟩
      refine Life.move (marked.setFlags _ (fun _ same => by cases same) ?_) mayBe_outside
      rintro other ⟨⟩
      exact (marked.reaper reaper isReaper).lt
  | invalid _ _ => exact life.abort _
  | @reaped flags isPlace _ =>
      rw [isPlace] at may
      exact life.reaperDone may flags
  | collect isPlace _ =>
      rw [isPlace] at may
      exact life.collect.move may
  | popped isPlace _ =>
      rw [isPlace] at may
      exact life.move may
  | @pop flags thread rest isPlace isList =>
      rw [isPlace] at may
      have shorter : Life { state with reapList := rest } :=
        life.congr rfl rfl rfl fun other member => isList ▸ List.mem_cons_of_mem thread member
      refine shorter.move ⟨may, ?_⟩
      exact life.reapList thread (isList ▸ List.mem_cons_self)

theorem Life.clearFlags (life : Life state) (flags : Word) (notJoiner : ∀ index, object ≠ .joiner index)
    (exists_ : ∀ index, object = .flags index → index < state.threads.length) :
    Life (state.clearFlags object flags) :=
  life.setWord (fun index isJoiner => (notJoiner index isJoiner).elim) exists_

theorem Life.beginRequest (life : Life state) (found : state.threads[index]? = some own)
    (request : ThreadRequest) : Life (beginRequest index own state request) := by
  have isThere := (List.getElem?_eq_some_iff.mp found).1
  cases request with
  | osEventFlagsWait address wish timeout =>
      exact life.move (mayBe_waitFor (fun _ same => by cases same) fun _ _ _ same => by cases same)
  | osEventFlagsDelete address => exact life.move trivial
  | osThreadFlagsWait wish timeout =>
      rw [PicoToolkit.beginRequest]
      split
      · refine life.move (mayBe_waitFor ?_ fun _ _ _ same => by cases same)
        rintro thread ⟨⟩
        rfl
      · exact life
  | osThreadFlagsClear flags =>
      rw [PicoToolkit.beginRequest]
      split
      · refine life.clearFlags flags (fun _ same => by cases same) ?_
        rintro thread ⟨⟩
        exact isThere
      · exact life
  | osThreadJoin thread =>
      rw [PicoToolkit.beginRequest]
      split
      · refine life.move (mayBe_waitFor (fun _ same => by cases same) fun _ none_ => ?_)
        exact ⟨rfl, rfl, fun takes => (none_ takes).elim⟩
      · exact life
  | osThreadDetach thread =>
      rw [PicoToolkit.beginRequest]
      split
      · rename_i allowed
        obtain ⟨target, isTarget, _⟩ := (Option.any_eq_true _ _).mp allowed
        refine life.ensureReaper.move ⟨state.ensureReaper_isSome, ?_⟩
        exact Nat.lt_of_lt_of_le (List.getElem?_eq_some_iff.mp isTarget).1 later_ensureReaper.length_le
      · exact life
  | osThreadTerminate thread =>
      rw [PicoToolkit.beginRequest]
      split
      · exact life
      · rename_i target isTarget
        split
        · exact (life.ensureFor target).move (mayBe_terminate isTarget)
        · exact life
  | osThreadExit => exact life.osThreadExit found

def NewUnmarked : ThreadAction → Prop
  | .osThreadNew attrBits => attrBits &&& osReapThread = 0
  | _ => True

theorem Life.step (life : Life state) {action : ThreadAction} (unmarked : NewUnmarked action)
    (moved : state.step action = some next) : Life next := by
  cases threadSteps moved with
  | osThreadNew _ => exact life.append rfl rfl rfl (Or.inl rfl) (lives_new unmarked mayBe_outside)
  | request request found _ _ => exact life.beginRequest found request
  | advance found live isNext => exact life.threadStep found live isNext
  | @schedule index own taskState found live stays =>
      have isOwn : ∀ thread, state.threads[index]? = some thread → thread = own :=
        fun thread isThread => Option.some_inj.mp (isThread.symm.trans found)
      refine life.change (fun thread isThread => ?_) (fun _ thread isThread isReaper => ?_)
        fun thread isThread lives later => ?_
      · obtain rfl := isOwn thread isThread
        exact ⟨⟨fun ended => (live ended).elim, id, id, id⟩, Or.inl⟩
      · exact ⟨isReaper.1, isReaper.2.1, fun ended => (stays ended).elim⟩
      · obtain rfl := isOwn thread isThread
        exact ⟨fun marked => (live (lives.marked marked).1).elim,
          fun invalid => (live (lives.invalid invalid).1).elim,
          fun ended => (live (lives.ended ended).1).elim, lives.place.later later⟩
  | evict wakeStatus found live => exact life.endTask found live wakeStatus
  | robustMutexes _ => exact life.congr rfl rfl rfl fun _ => id
  | osEventFlagsSet _ => exact life.setFlags _ (fun _ same => by cases same) fun _ same => by cases same
  | osEventFlagsClear _ =>
      exact life.clearFlags _ (fun _ same => by cases same) fun _ same => by cases same
  | osThreadFlagsSet _ isThread =>
      refine life.setFlags _ (fun _ same => by cases same) ?_
      rintro index ⟨⟩
      obtain ⟨target, isTarget, _⟩ := (Option.any_eq_true _ _).mp isThread
      exact (List.getElem?_eq_some_iff.mp isTarget).1

theorem Life.initial (begins : threadsSystem.initial state) : Life state := by
  obtain ⟨⟨attrBits, unmarked, threads⟩, words, reaper, reapList, _⟩ := begins
  refine ⟨fun index thread found => ?_, fun index isSet => ?_, fun index _ => ?_,
    fun index member => ?_, fun index isReaper => ?_⟩
  · rw [threads] at found
    obtain rfl := List.mem_singleton.mp (List.mem_of_getElem? found)
    exact lives_new unmarked mayBe_outside
  · rw [words] at isSet
    exact (isSet BitVec.zero_and).elim
  · rw [words]
  · rw [reapList] at member
    cases member
  · cases reaper.symm.trans isReaper

end Life

end PicoToolkit
