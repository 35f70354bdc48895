import PicoToolkit.Cmsis.ThreadClaims

/-!
The end of a control block: a joiner or the reaper gives it up, once, while nobody else works on it.
-/

namespace PicoToolkit

open Transition Interleaving ThreadsState RtosThread

structure Tidy (state : ThreadsState) : Prop where
  claims : Claims state
  records : Records state

section Tidy

variable {state next : ThreadsState} {index : Nat} {place : ThreadPlace} {own : RtosThread}
  {update : RtosThread → RtosThread} {object : EventObject}

theorem Tidy.congr (tidy : Tidy state) (threads : next.threads = state.threads)
    (reaper : next.reaper = state.reaper) (reapList : next.reapList = state.reapList)
    (reclaims : next.reclaims = state.reclaims) (released : next.released = state.released) :
    Tidy next := by
  constructor
  · refine tidy.claims.kept fun other after found live => Or.inr ?_
    rw [threads] at found
    refine ⟨after, found, live, rfl, fun thread _ => holds_of_getElem? (by rw [threads]),
      fun thread _ => hasEnded_of_getElem? (by rw [threads]), fun _ _ => reclaims ▸ id,
      fun _ _ _ _ => reapList ▸ id⟩
  · refine tidy.records.congr (.of_threads threads reaper) reclaims reapList released
      (fun other after found unregistered => ⟨after, threads ▸ found, unregistered⟩) ?_ ?_
    · rintro thread ⟨cleaner, own, found, holds⟩
      exact ⟨cleaner, own, threads ▸ found, holds⟩
    · intro other isReaper
      obtain ⟨own, found, holds⟩ := tidy.records.reaper other (reaper ▸ isReaper)
      exact ⟨own, threads ▸ found, holds⟩

theorem Tidy.abort (tidy : Tidy state) (aborter : Aborter) : Tidy (state.abort aborter) :=
  tidy.congr rfl rfl rfl rfl rfl

theorem Tidy.recordDelete (tidy : Tidy state) (object : EventObject) (cleans : Bool) :
    Tidy (state.recordDelete object cleans) :=
  tidy.congr rfl rfl rfl rfl rfl

theorem Tidy.setWord (tidy : Tidy state) (object : EventObject) (address value : Word) :
    Tidy (state.setWord object address value) :=
  tidy.congr rfl rfl rfl rfl rfl

theorem Records.move (records : Records state) (found : state.threads[index]? = some own)
    (cleans : ∀ thread, own.place.cleans = some thread → place.cleans = some thread)
    (takes : own.place.takes = true → place.takes = true ∨ state.reapList = []) :
    Records (state.move index place) := by
  refine records.congr later_move rfl rfl rfl (fun other after isAfter unregistered => ?_) ?_ ?_
  · rcases getElem?_change isAfter with ⟨thread, isThread, rfl, rfl⟩ | ⟨_, isThread⟩
    · exact ⟨thread, isThread, unregistered⟩
    · exact ⟨after, isThread, unregistered⟩
  · rintro thread ⟨cleaner, caller, isCaller, live, isCleaned⟩
    by_cases isIt : cleaner = index
    · subst isIt
      obtain rfl := Option.some_inj.mp (found.symm.trans isCaller)
      exact ⟨cleaner, _, getElem?_change_self found, live, cleans thread isCleaned⟩
    · exact ⟨cleaner, caller, (getElem?_change_ne isIt).trans isCaller, live, isCleaned⟩
  · intro reaper isReaper
    refine has_change (records.reaper reaper isReaper) ?_ fun _ _ _ holds => holds
    rintro rfl thread isThread ⟨live, idle⟩
    obtain rfl := Option.some_inj.mp (found.symm.trans isThread)
    refine ⟨live, ?_⟩
    rcases idle with isTaking | empty
    · exact takes isTaking
    · exact Or.inr empty

theorem Tidy.move (tidy : Tidy state) (found : state.threads[index]? = some own)
    (cleans : ∀ thread, own.place.cleans = some thread → place.cleans = some thread)
    (takes : own.place.takes = true → place.takes = true ∨ state.reapList = [])
    (fits : Fits state place)
    (free : ∀ thread, state.claims place = some thread → Free state index thread) :
    Tidy (state.move index place) :=
  ⟨tidy.claims.move rfl rfl (fun _ => id)
    ((unharmed_of_move rfl rfl (fun _ => id) place).fits fits) free, tidy.records.move found cleans takes⟩

theorem Tidy.leave (tidy : Tidy state) (found : state.threads[index]? = some own)
    (cleans : own.place.cleans = none) (takes : own.place.takes = false) (fits : Fits state place)
    (unclaimed : state.claims place = none) : Tidy (state.move index place) := by
  refine tidy.move found (fun thread isCleaned => ?_) (fun isTaking => ?_) fits fun thread claimed => ?_
  · cases cleans.symm.trans isCleaned
  · cases takes.symm.trans isTaking
  · cases unclaimed.symm.trans claimed

theorem later_endTask (found : state.threads[index]? = some own) (live : own.state ≠ .terminated)
    (wakeStatus : Result) : Later state (state.endTask index own wakeStatus) := by
  obtain ⟨words, aborted, isEnd⟩ := endTask_eq state index own wakeStatus
  rw [isEnd]
  have changed : Later state (state.change index (RtosThread.endAs own.joinable)) := by
    refine later_change fun thread isThread => ?_
    obtain rfl := Option.some_inj.mp (found.symm.trans isThread)
    have joinable : (RtosThread.endAs own.joinable own).joinable = own.joinable := by
      rw [endAs]
      split
      · rfl
      · exact joinable_markReap _
    refine ⟨⟨fun ended => (live ended).elim, ?_, ?_, ?_⟩, fun joins => Or.inl (joinable.trans joins)⟩
    · rw [registered_endAs]
      exact id
    · rw [joinable]
      exact id
    · intro marked
      rw [endAs]
      split
      · exact marked
      · exact marked_markReap _
  exact changed.trans (.of_threads rfl rfl)

theorem Tidy.endTask (life : Life state) (tidy : Tidy state)
    (found : state.threads[index]? = some own) (live : own.state ≠ .terminated)
    (unseen : ∀ (other : Nat) (caller : RtosThread), other ≠ index → state.threads[other]? = some caller →
      caller.state ≠ .terminated → caller.place.looksAt ≠ some index)
    (notReaper : state.reaper ≠ some index) (notCleaner : own.place.cleans = none)
    (wakeStatus : Result) : Tidy (state.endTask index own wakeStatus) := by
  have later := later_endTask found live wakeStatus
  obtain ⟨words, aborted, isEnd⟩ := endTask_eq state index own wakeStatus
  rw [isEnd] at later ⊢
  refine ⟨tidy.claims.endTask life found live unseen rfl rfl rfl, ?_⟩
  refine tidy.records.congr later rfl rfl rfl (fun other after isAfter unregistered => ?_) ?_ ?_
  · rcases getElem?_change isAfter with ⟨thread, isThread, rfl, rfl⟩ | ⟨_, isThread⟩
    · rw [registered_endAs] at unregistered
      exact ⟨thread, isThread, unregistered⟩
    · exact ⟨after, isThread, unregistered⟩
  · rintro thread ⟨cleaner, caller, isCaller, liveCaller, isCleaned⟩
    have isOther : cleaner ≠ index := by
      rintro rfl
      obtain rfl := Option.some_inj.mp (found.symm.trans isCaller)
      cases notCleaner.symm.trans isCleaned
    exact ⟨cleaner, caller, (getElem?_change_ne isOther).trans isCaller, liveCaller, isCleaned⟩
  · intro reaper isReaper
    obtain ⟨thread, isThread, holds⟩ := tidy.records.reaper reaper isReaper
    have isOther : reaper ≠ index := by
      rintro rfl
      exact notReaper isReaper
    exact ⟨thread, (getElem?_change_ne isOther).trans isThread, holds⟩

theorem Tidy.append (tidy : Tidy state) {fresh : RtosThread}
    (threads : next.threads = state.threads ++ [fresh]) (reclaims : next.reclaims = state.reclaims)
    (reapList : next.reapList = state.reapList) (released : next.released = state.released)
    (reaper : next.reaper = state.reaper ∨
      state.reaper = none ∧ next.reaper = some state.threads.length)
    (registered : fresh.registered = true) (live : fresh.state ≠ .terminated)
    (none_ : next.claims fresh.place = none ∧ Fits next fresh.place) : Tidy next := by
  have keeps : ∀ {thread : Nat} {property : RtosThread → Prop}, state.Has thread property →
      next.Has thread property := by
    rintro thread property ⟨target, found, holds⟩
    refine ⟨target, ?_, holds⟩
    rw [threads, List.getElem?_append_left (List.getElem?_eq_some_iff.mp found).1]
    exact found
  refine ⟨tidy.claims.append threads reclaims reapList none_, ?_⟩
  refine tidy.records.congr (later_append threads fun index isReaper => ?_) reclaims reapList released
    (fun other after found unregistered => ?_) (fun thread cleaned => ?_) fun other isReaper => ?_
  · rcases reaper with same | ⟨isNone, _⟩
    · exact same.trans isReaper
    · cases isNone.symm.trans isReaper
  · rcases getElem?_append threads found with isOld | rfl
    · exact ⟨after, isOld, unregistered⟩
    · cases registered.symm.trans unregistered
  · obtain ⟨cleaner, has⟩ := cleaned
    exact ⟨cleaner, keeps has⟩
  · rcases reaper with same | ⟨isNone, isLast⟩
    · exact keeps (tidy.records.reaper other (same.symm.trans isReaper))
    · obtain rfl := Option.some_inj.mp (isLast.symm.trans isReaper)
      refine ⟨fresh, ?_, live, Or.inr (tidy.records.idle isNone)⟩
      rw [threads, List.getElem?_concat_length]

theorem Tidy.ensureReaper (tidy : Tidy state) : Tidy state.ensureReaper := by
  rw [ThreadsState.ensureReaper]
  split
  · exact tidy
  · rename_i none_
    exact tidy.append rfl rfl rfl rfl (Or.inr ⟨none_, rfl⟩) rfl (fun same => by cases same)
      (claims_reaperWait _ _)

theorem Tidy.ensureFor (tidy : Tidy state) (thread : RtosThread) : Tidy (ensureFor thread state) := by
  rw [PicoToolkit.ensureFor]
  split
  · exact tidy
  · exact tidy.ensureReaper

theorem Free.ensureReaper (claims : Claims state) {thread : Nat} (free : Free state index thread) :
    Free state.ensureReaper index thread := by
  rw [ThreadsState.ensureReaper]
  split
  · exact free
  · exact free.append claims rfl rfl rfl rfl

theorem Free.ensureFor (claims : Claims state) {thread : Nat} (free : Free state index thread)
    (target : RtosThread) : Free (ensureFor target state) index thread := by
  rw [PicoToolkit.ensureFor]
  split
  · exact free
  · exact free.ensureReaper claims

theorem Tidy.changeBits (tidy : Tidy state) {target : Nat}
    (later : Later state (state.change target update))
    (same : ∀ thread, (update thread).place = thread.place ∧ (update thread).state = thread.state ∧
      (update thread).registered = thread.registered)
    (others : ∀ (other : Nat) (caller : RtosThread), state.threads[other]? = some caller →
      caller.state ≠ .terminated → caller.place.about = some target →
      Holds state (state.change target update) caller.place target) :
    Tidy (state.change target update) := by
  have keeps : ∀ {reaper : Nat} (property : TaskState → ThreadPlace → Prop),
      (state.Has reaper fun own => property own.state own.place) →
      (state.change target update).Has reaper fun own => property own.state own.place := by
    intro reaper property has
    refine has_change has ?_ fun _ _ _ holds => holds
    intro _ thread _ holds
    rw [(same thread).1, (same thread).2.1]
    exact holds
  constructor
  · refine tidy.claims.change rfl (fun thread => (same thread).1)
      (fun thread _ => (same thread).2.1 ▸ id) fun other caller found live _ => ?_
    refine unharmed_of_change rfl (fun _ _ => id) (fun _ => id) fun about => ?_
    refine ⟨others other caller found live about, fun _ => hasEnded_of_getElem? ?_⟩
    rw [change, List.getElem?_modify_eq]
    cases state.threads[target]? with
    | none => rfl
    | some thread => exact congrArg some (same thread).2.1
  · refine tidy.records.congr later rfl rfl rfl (fun other after isAfter unregistered => ?_) ?_ ?_
    · rcases getElem?_change isAfter with ⟨thread, isThread, rfl, rfl⟩ | ⟨_, isThread⟩
      · exact ⟨thread, isThread, (same thread).2.2.symm.trans unregistered⟩
      · exact ⟨after, isThread, unregistered⟩
    · rintro thread ⟨cleaner, has⟩
      exact ⟨cleaner, keeps (fun place where_ => place ≠ .terminated ∧ where_.cleans = some thread) has⟩
    · intro reaper isReaper
      exact keeps (fun place where_ => place ≠ .terminated ∧
        (where_.takes = true ∨ state.reapList = [])) (tidy.records.reaper reaper isReaper)

theorem claims_of_needsJoinable {thread : Nat} (needs : place.needsJoinable = true)
    (about : place.about = some thread) : state.claims place = some thread := by
  cases place with
  | wait object wish timeout place after =>
      cases after with
      | join joined => exact about
      | leave => cases needs
      | reap => cases needs
  | clean cleaned part cleaner =>
      cases cleaner with
      | joiner => exact about
      | reaper flags => cases needs
  | remove joined => exact about
  | detach detached => exact about
  | _ => cases needs

theorem Tidy.detach (life : Life state) (tidy : Tidy state) (found : state.threads[index]? = some own)
    (live : own.state ≠ .terminated) {thread : Nat} (isPlace : own.place = .detach thread) :
    Tidy ((state.change thread RtosThread.detach).move index (.detached thread)) := by
  have fits := tidy.claims.fits index own found live
  have may := (life.threads index own found).place
  rw [isPlace] at fits may
  have moved : Tidy (state.move index (.detached thread)) := by
    refine tidy.move found ?_ ?_ (Has.imp fits fun _ holds => holds.2) ?_
    · rw [isPlace]
      nofun
    · rw [isPlace]
      nofun
    · rintro other ⟨⟩
      exact tidy.claims.free found live (by rw [isPlace]; rfl)
  have changed : Tidy ((state.move index (.detached thread)).change thread RtosThread.detach) := by
    refine moved.changeBits (later_change fun target _ => ?_) (fun _ => ⟨rfl, rfl, rfl⟩)
      fun other caller isCaller liveCaller about target isTarget => ?_
    · exact ⟨⟨fun ended => ⟨ended, rfl⟩, id, fun _ => joinable_detach target,
        fun marked => (marked_detach target).trans marked⟩, fun _ => Or.inr may.1⟩
    · refine ⟨target.detach, getElem?_change_self isTarget, fun needs => ?_, fun _ registered _ => registered,
        (marked_detach target).trans, id⟩
      have isIt := moved.claims.sole other index caller _ thread isCaller (getElem?_change_self found)
        liveCaller live (claims_of_needsJoinable needs about) rfl
      subst isIt
      obtain rfl := Option.some_inj.mp ((getElem?_change_self found).symm.trans isCaller)
      cases needs
  exact changed.congr (threads_change_move fun _ _ => rfl) rfl rfl rfl rfl

theorem Tidy.markReap (life : Life state) (tidy : Tidy state) (found : state.threads[index]? = some own)
    (live : own.state ≠ .terminated) {thread : Nat} (isPlace : own.place = .detached thread)
    (ended : state.Has thread RtosThread.Ended) :
    Tidy ((state.change thread RtosThread.markReap).move index .outside) := by
  have fits := tidy.claims.fits index own found live
  rw [isPlace] at fits
  have moved : Tidy (state.move index .outside) := by
    refine tidy.leave found ?_ ?_ trivial rfl
    · rw [isPlace]
      rfl
    · rw [isPlace]
      rfl
  have changed : Tidy ((state.move index .outside).change thread RtosThread.markReap) := by
    refine moved.changeBits (later_change fun target _ => ?_) (fun _ => ⟨rfl, rfl, rfl⟩)
      fun other caller isCaller liveCaller about => ?_
    · exact ⟨⟨fun ended => ⟨ended, rfl⟩, id, (joinable_markReap target).trans,
        fun _ => marked_markReap target⟩, fun joins => Or.inl ((joinable_markReap target).trans joins)⟩
    · exfalso
      rcases getElem?_change isCaller with ⟨_, _, _, rfl⟩ | ⟨isOther, wasCaller⟩
      · cases about
      · exact tidy.claims.noneAbout life found live (by rw [isPlace]; rfl) ended fits isOther wasCaller
          liveCaller about
  exact changed.congr (threads_change_move fun _ _ => rfl) rfl rfl rfl rfl

theorem Tidy.unregister (life : Life state) (tidy : Tidy state)
    (found : state.threads[index]? = some own) (live : own.state ≠ .terminated) {thread : Nat}
    (isPlace : own.place = .remove thread) :
    Tidy ((state.unregister thread).move index (.clean thread .mutexes .joiner)) := by
  have fits := tidy.claims.fits index own found live
  have may := (life.threads index own found).place
  rw [isPlace] at fits may
  obtain ⟨target, isTarget, joinable, registered, unmarked⟩ := fits
  have notYet : thread ∉ state.reclaims.map Reclaim.thread := by
    intro member
    obtain ⟨reclaim, isReclaim, rfl⟩ := List.mem_map.mp member
    cases registered.symm.trans ((tidy.records.gone reclaim isReclaim).1.of_found isTarget).2
  have notListed : thread ∉ state.reapList := by
    intro member
    cases registered.symm.trans ((life.reapList thread member).of_found isTarget).1.2
  have moved : Tidy (state.move index (.clean thread .mutexes .joiner)) := by
    refine tidy.move found ?_ ?_ ⟨⟨target, isTarget, joinable, unmarked⟩, notYet⟩ ?_
    · rw [isPlace]
      nofun
    · rw [isPlace]
      nofun
    · rintro other ⟨⟩
      exact tidy.claims.free found live (by rw [isPlace]; rfl)
  have isMoved : ∀ (other : Nat) (caller : RtosThread),
      (state.move index (.clean thread .mutexes .joiner)).threads[other]? = some caller →
      caller.state ≠ .terminated → caller.place.about = some thread → other = index := by
    intro other caller isCaller liveCaller about
    rcases getElem?_change isCaller with ⟨_, _, isIt, rfl⟩ | ⟨isOther, wasCaller⟩
    · exact isIt
    · have notAbout := tidy.claims.noneAbout life found live (by rw [isPlace]; rfl)
        (Has.imp may fun _ ended => ended.1) ⟨target, isTarget, unmarked⟩ isOther wasCaller liveCaller
      exact (notAbout about).elim
  have same : ((state.unregister thread).move index (.clean thread .mutexes .joiner)).threads =
      ((state.move index (.clean thread .mutexes .joiner)).change thread RtosThread.unregister).threads :=
    threads_change_move fun _ _ => rfl
  have shorter : ∀ other ∈ ((state.unregister thread).move index (.clean thread .mutexes .joiner)).reapList,
      other ∈ state.reapList := fun other => List.mem_of_mem_filter
  have listSame : (state.unregister thread).reapList = state.reapList := by
    refine List.filter_eq_self.mpr fun other member => decide_eq_true ?_
    rintro rfl
    exact notListed member
  constructor
  · refine moved.claims.change same (fun _ => rfl) (fun _ _ => id) fun other caller isCaller liveCaller _ => ?_
    refine unharmed_of_change same (fun _ _ => id) shorter fun about => ?_
    obtain rfl := isMoved other caller isCaller liveCaller about
    obtain rfl := Option.some_inj.mp ((getElem?_change_self found).symm.trans isCaller)
    refine ⟨fun former isFormer => ⟨former.unregister, ?_, fun _ => id, nofun, id, id⟩, nofun⟩
    rw [same]
    exact getElem?_change_self isFormer
  · have later : Later state ((state.unregister thread).move index (.clean thread .mutexes .joiner)) :=
      later_unregister.trans later_move
    have keeps : ∀ {reaper : Nat} (property : TaskState → ThreadPlace → Prop),
        ((state.move index (.clean thread .mutexes .joiner)).Has reaper fun own =>
          property own.state own.place) →
        ((state.unregister thread).move index (.clean thread .mutexes .joiner)).Has reaper fun own =>
          property own.state own.place := by
      intro reaper property has
      rw [Has, same]
      exact has_change has (fun _ _ _ holds => holds) fun _ _ _ holds => holds
    refine ⟨moved.records.once, moved.records.alone, moved.records.decided, fun reclaim member => ?_, ?_, ?_,
      moved.records.released, fun other after isAfter unregistered => ?_, fun reaper isReaper => ?_,
      fun none_ => ?_⟩
    · obtain ⟨gone, reaped⟩ := tidy.records.gone reclaim member
      exact ⟨later.has lasts_gone gone, fun byReaper => later.has lasts_reaped (reaped byReaper)⟩
    · change (state.unregister thread).reapList.Nodup
      rw [listSame]
      exact tidy.records.nodup
    · intro other member
      exact tidy.records.pending other (shorter other member)
    · change _ ∨ _ ∨ other ∈ (state.unregister thread).reapList
      rw [listSame]
      rw [same] at isAfter
      rcases getElem?_change isAfter with ⟨_, _, rfl, rfl⟩ | ⟨_, isThread⟩
      · refine Or.inr (Or.inl ⟨index, keeps (fun place where_ => place ≠ .terminated ∧
          where_.cleans = some other) ⟨_, getElem?_change_self found, live, rfl⟩⟩)
      · rcases moved.records.left other after isThread unregistered with done | ⟨cleaner, has⟩ | listed
        · exact Or.inl done
        · exact Or.inr (Or.inl ⟨cleaner, keeps (fun place where_ => place ≠ .terminated ∧
            where_.cleans = some other) has⟩)
        · exact Or.inr (Or.inr listed)
    · change _ at isReaper
      have has := moved.records.reaper reaper isReaper
      have listed : ((state.unregister thread).move index (.clean thread .mutexes .joiner)).reapList =
          state.reapList := listSame
      rw [listed]
      exact keeps (fun place where_ => place ≠ .terminated ∧
        (where_.takes = true ∨ state.reapList = [])) has
    · exact listSame.trans (tidy.records.idle none_)

/-- A block that `index` gives up: as a joiner or as the reaper, for the first time, and alone. -/
structure GivenUp (state : ThreadsState) (index thread : Nat) (byReaper : Bool) : Prop where
  block : state.Has thread fun target =>
    byReaper = !target.joinable ∧ target.Gone ∧ (byReaper = true → target.marked = true)
  notYet : thread ∉ state.reclaims.map Reclaim.thread
  notListed : thread ∉ state.reapList
  noneAbout : ∀ (other : Nat) (caller : RtosThread), other ≠ index →
    state.threads[other]? = some caller → caller.state ≠ .terminated →
    caller.place.about ≠ some thread

section Reclaim

variable {thread other : Nat} {byReaper : Bool} {caller after : RtosThread}

theorem threads_reclaim_move : ((state.reclaim index thread byReaper).move index place).threads =
    ((state.move index place).change thread RtosThread.clearMarker).threads :=
  threads_change_move fun _ _ => rfl

theorem reclaims_reclaim_move :
    ((state.reclaim index thread byReaper).move index place).reclaims.map Reclaim.thread =
      state.reclaims.map Reclaim.thread ++ [thread] :=
  List.map_append ..

theorem later_reclaim_move : Later state ((state.reclaim index thread byReaper).move index place) := by
  have changed : Later state (state.change thread RtosThread.clearMarker) :=
    later_change fun _ _ => ⟨⟨fun ended => ⟨ended, rfl⟩, id, id, id⟩, Or.inl⟩
  have reclaimed : Later state (state.reclaim index thread byReaper) :=
    changed.trans (.of_threads rfl rfl)
  exact reclaimed.trans later_move

theorem registered_before_reclaim
    (isAfter : ((state.reclaim index thread byReaper).move index place).threads[other]? = some after) :
    ∃ before, state.threads[other]? = some before ∧ after.registered = before.registered := by
  rw [threads_reclaim_move] at isAfter
  rcases getElem?_change isAfter with ⟨between, isBetween, _, rfl⟩ | ⟨_, isBetween⟩
  · rcases getElem?_change isBetween with ⟨before, isBefore, _, rfl⟩ | ⟨_, isBefore⟩
    · exact ⟨before, isBefore, rfl⟩
    · exact ⟨between, isBefore, rfl⟩
  · rcases getElem?_change isBetween with ⟨before, isBefore, _, rfl⟩ | ⟨_, isBefore⟩
    · exact ⟨before, isBefore, rfl⟩
    · exact ⟨after, isBefore, rfl⟩

theorem has_reclaim_other (isOther : other ≠ index) (isCaller : state.threads[other]? = some caller) :
    ((state.reclaim index thread byReaper).move index place).Has other fun after =>
      after.state = caller.state ∧ after.place = caller.place := by
  rw [Has, threads_reclaim_move]
  exact has_change ⟨caller, (getElem?_change_ne isOther).trans isCaller, rfl, rfl⟩
    (fun _ _ _ kept => kept) fun _ _ _ kept => kept

theorem has_reclaim_self (found : state.threads[index]? = some own) :
    ((state.reclaim index thread byReaper).move index place).Has index fun after =>
      after.state = own.state ∧ after.place = place := by
  rw [Has, threads_reclaim_move]
  exact has_change ⟨_, getElem?_change_self found, rfl, rfl⟩ (fun _ _ _ kept => kept)
    fun _ _ _ kept => kept

theorem Claims.reclaim (claims : Claims state) (givenUp : GivenUp state index thread byReaper)
    (unused : place.about = none)
    (idle : ∀ state : ThreadsState, Fits state place ∧ state.claims place = none) :
    Claims ((state.reclaim index thread byReaper).move index place) := by
  have moved : Claims (state.move index place) := by
    refine claims.move rfl rfl (fun _ => id) (idle _).1 fun other claimed => ?_
    cases (idle _).2.symm.trans claimed
  have notAbout : ∀ (other : Nat) (caller : RtosThread),
      (state.move index place).threads[other]? = some caller → caller.state ≠ .terminated →
      caller.place.about ≠ some thread := by
    intro other caller isCaller liveCaller about
    rcases getElem?_change isCaller with ⟨_, _, _, rfl⟩ | ⟨isOther, wasCaller⟩
    · cases unused.symm.trans about
    · exact givenUp.noneAbout other caller isOther wasCaller liveCaller about
  refine moved.change threads_reclaim_move (fun _ => rfl) (fun _ _ => id)
    fun other caller isCaller liveCaller _ => ?_
  refine unharmed_of_change threads_reclaim_move (fun cleaned isCleaned member => ?_) (fun _ => id)
    fun about => (notAbout other caller isCaller liveCaller about).elim
  rw [reclaims_reclaim_move] at member
  rcases List.mem_append.mp member with old | new
  · exact old
  · obtain rfl := List.mem_singleton.mp new
    refine (notAbout other caller isCaller liveCaller ?_).elim
    cases isPlace : caller.place with
    | clean cleaned part cleaner =>
        rw [isPlace] at isCleaned
        exact isCleaned
    | _ =>
        rw [isPlace] at isCleaned
        cases isCleaned

theorem Records.reclaim (records : Records state) (found : state.threads[index]? = some own)
    (givenUp : GivenUp state index thread byReaper) (cleans : own.place.cleans = some thread)
    (takes : own.place.takes = true → place.takes = true) :
    Records ((state.reclaim index thread byReaper).move index place) := by
  obtain ⟨target, isTarget, decides, gone, reaped⟩ := givenUp.block
  refine ⟨?_, fun reclaim member => ?_, fun reclaim member => ?_, fun reclaim member => ?_,
    records.nodup, fun other member => ?_, ?_, fun other after isAfter unregistered => ?_,
    fun reaper isReaper => ?_, records.idle⟩
  · rw [reclaims_reclaim_move]
    exact List.nodup_append.mpr ⟨records.once, List.nodup_singleton _, fun former isFormer _ isNew
      isSame => givenUp.notYet (List.mem_singleton.mp isNew ▸ isSame ▸ isFormer)⟩
  · rcases List.mem_append.mp member with old | new
    · exact records.alone reclaim old
    · obtain rfl := List.mem_singleton.mp new
      change state.others [index] (fun place => decide (place.about = some thread)) = false
      refine others_eq_false.mpr fun other caller notIn isCaller liveCaller => decide_eq_false ?_
      exact givenUp.noneAbout other caller (List.mem_singleton.not.mp notIn) isCaller liveCaller
  · rcases List.mem_append.mp member with old | new
    · exact records.decided reclaim old
    · obtain rfl := List.mem_singleton.mp new
      change byReaper = !(state.threads[thread]?.any RtosThread.joinable)
      rw [isTarget]
      exact decides
  · have later := @later_reclaim_move state index place thread byReaper
    rcases List.mem_append.mp member with old | new
    · obtain ⟨goneOld, reapedOld⟩ := records.gone reclaim old
      exact ⟨later.has lasts_gone goneOld, fun isReaped => later.has lasts_reaped (reapedOld isReaped)⟩
    · obtain rfl := List.mem_singleton.mp new
      exact ⟨later.has lasts_gone ⟨target, isTarget, gone⟩, fun isReaped =>
        later.has lasts_reaped ⟨target, isTarget, gone, reaped isReaped⟩⟩
  · rw [reclaims_reclaim_move]
    intro isReclaimed
    rcases List.mem_append.mp isReclaimed with old | new
    · exact records.pending other member old
    · exact givenUp.notListed (List.mem_singleton.mp new ▸ member)
  · rw [reclaims_reclaim_move]
    change List.Sublist (if _ then _ else _) _
    split
    · exact records.released.append (List.Sublist.refl _)
    · exact records.released.trans (List.sublist_append_left _ _)
  · rw [reclaims_reclaim_move]
    obtain ⟨before, isBefore, isRegistered⟩ := registered_before_reclaim isAfter
    rcases records.left other before isBefore (isRegistered ▸ unregistered) with done | cleaned | listed
    · exact Or.inl (List.mem_append_left _ done)
    · obtain ⟨cleaner, caller, isCaller, liveCaller, isCleaned⟩ := cleaned
      by_cases isIt : cleaner = index
      · subst isIt
        obtain rfl := Option.some_inj.mp (found.symm.trans isCaller)
        obtain rfl := Option.some_inj.mp (cleans.symm.trans isCleaned)
        exact Or.inl (List.mem_append_right _ (List.mem_singleton.mpr rfl))
      · obtain ⟨after, isThere, isState, isPlace⟩ := has_reclaim_other isIt isCaller
        exact Or.inr (Or.inl ⟨cleaner, after, isThere, isState ▸ liveCaller, isPlace ▸ isCleaned⟩)
    · exact Or.inr (Or.inr listed)
  · obtain ⟨caller, isCaller, liveCaller, taking⟩ := records.reaper reaper isReaper
    by_cases isIt : reaper = index
    · subst isIt
      obtain rfl := Option.some_inj.mp (found.symm.trans isCaller)
      obtain ⟨after, isThere, isState, isPlace⟩ := has_reclaim_self found
      exact ⟨after, isThere, isState ▸ liveCaller, taking.imp (isPlace ▸ takes ·) id⟩
    · obtain ⟨after, isThere, isState, isPlace⟩ := has_reclaim_other isIt isCaller
      exact ⟨after, isThere, isState ▸ liveCaller, taking.imp (isPlace ▸ ·) id⟩

end Reclaim

theorem Claims.waiting_joiner (life : Life state) (claims : Claims state)
    (found : state.threads[index]? = some own) (live : own.state ≠ .terminated) {thread : Nat}
    (isPlace : own.place = .clean thread .joiner .joiner) : state.waiting (.joiner thread) = 0 := by
  rw [waiting, List.countP_eq_zero]
  intro waiter member
  obtain ⟨other, isWaiter⟩ := List.mem_iff_getElem?.mp member
  have may := (life.threads other waiter isWaiter).place
  rw [decide_eq_true_iff, RtosThread.waitsFor]
  split
  · intro same
    cases same
  · rename_i liveWaiter
    intro waits
    cases isWait : waiter.place with
    | wait object wish timeout place after =>
        rw [isWait] at may waits
        rw [ThreadPlace.waitsFor] at waits
        split at waits
        · obtain rfl := Option.some_inj.mp waits
          cases after with
          | leave => exact may.2 thread rfl
          | reap => cases may.2.2.1
          | join joined =>
              obtain ⟨⟨⟩, _⟩ := may.2
              have isIt := claims.sole other index waiter own thread isWaiter found liveWaiter live
                (by rw [isWait]; rfl) (by rw [isPlace]; rfl)
              subst isIt
              obtain rfl := Option.some_inj.mp (found.symm.trans isWaiter)
              cases isPlace.symm.trans isWait
        · cases waits
    | _ =>
        rw [isWait] at waits
        cases waits

theorem Claims.uncontested (life : Life state) (claims : Claims state)
    (found : state.threads[index]? = some own) (live : own.state ≠ .terminated) {thread : Nat}
    {part : CleanPart} (isPlace : own.place = .clean thread part .joiner) :
    state.contested index thread = false := by
  have fits := claims.fits index own found live
  have may := (life.threads index own found).place
  rw [isPlace] at fits may
  obtain ⟨⟨target, isTarget, _, unmarked⟩, notYet⟩ := fits
  have joined : target.Joined := Has.of_found may isTarget
  have alone : state.busy index thread = false := by
    refine others_eq_false.mpr fun other caller notIn isCaller liveCaller => decide_eq_false ?_
    exact claims.noneAbout life found live (by rw [isPlace]; rfl) ⟨target, isTarget, joined.1.1⟩
      ⟨target, isTarget, unmarked⟩ (List.mem_singleton.not.mp notIn) isCaller liveCaller
  rw [contested, alone, decide_eq_false notYet]
  rfl

theorem Tidy.nextPart (tidy : Tidy state) (found : state.threads[index]? = some own)
    (live : own.state ≠ .terminated) {thread : Nat} {part : CleanPart} {cleaner : Cleaner}
    (isPlace : own.place = .clean thread part cleaner) (next : CleanPart) :
    Tidy (state.move index (.clean thread next cleaner)) := by
  have fits := tidy.claims.fits index own found live
  rw [isPlace] at fits
  refine tidy.move found ?_ ?_ ?_ ?_
  · rw [isPlace]
    exact fun _ => id
  · rw [isPlace]
    cases cleaner with
    | joiner => nofun
    | reaper flags => exact fun _ => Or.inl rfl
  · cases cleaner with
    | joiner => exact fits
    | reaper flags => exact fits
  · cases cleaner with
    | joiner =>
        rintro other ⟨⟩
        exact tidy.claims.free found live (by rw [isPlace]; rfl)
    | reaper flags => nofun

theorem Tidy.cleanMutexes (life : Life state) (tidy : Tidy state)
    (found : state.threads[index]? = some own) (live : own.state ≠ .terminated) {thread : Nat}
    {cleaner : Cleaner} (isPlace : own.place = .clean thread .mutexes cleaner) (answer : Result) :
    Tidy (cleanMutexes index thread cleaner answer state) := by
  have freed : Tidy (state.freeMutexes thread) := tidy.congr rfl rfl rfl rfl rfl
  unfold PicoToolkit.cleanMutexes
  split
  · split
    · rename_i contested
      cases cleaner with
      | joiner => cases (tidy.claims.uncontested life found live isPlace).symm.trans contested.1
      | reaper flags => exact tidy.abort _
    · exact freed.nextPart found live isPlace .joiner
  · cases cleaner with
    | joiner => exact tidy.abort _
    | reaper flags => exact tidy.abort _

theorem Tidy.cleanDelete (counts : state.Counts) (tidy : Tidy state)
    (found : state.threads[index]? = some own) (live : own.state ≠ .terminated) {thread : Nat}
    {part : CleanPart} {cleaner : Cleaner} (isPlace : own.place = .clean thread part cleaner)
    (next : CleanPart) (none_ : cleaner = .joiner → state.waiting object = 0) :
    Tidy (cleanDelete index thread object next cleaner state) := by
  have recorded := tidy.recordDelete object true
  unfold PicoToolkit.cleanDelete
  split
  · exact recorded.nextPart found live isPlace next
  · rename_i refused
    cases cleaner with
    | joiner => exact (refused ((osEventFlagsDelete_of_counts counts object).2 (none_ rfl))).elim
    | reaper flags => exact recorded.abort _

theorem Tidy.cleanStep (life : Life state) (counts : state.Counts) (tidy : Tidy state)
    (found : state.threads[index]? = some own) (live : own.state ≠ .terminated) {thread : Nat}
    {part : CleanPart} {cleaner : Cleaner} (isPlace : own.place = .clean thread part cleaner)
    (answer : Result) : Tidy (cleanStep index thread part cleaner answer state) := by
  have fits := tidy.claims.fits index own found live
  have may := (life.threads index own found).place
  rw [isPlace] at fits may
  cases part with
  | mutexes => exact tidy.cleanMutexes life found live isPlace answer
  | joiner =>
      refine tidy.cleanDelete counts found live isPlace .flags ?_
      rintro rfl
      exact tidy.claims.waiting_joiner life found live isPlace
  | flags =>
      refine tidy.cleanDelete counts found live isPlace .clear ?_
      rintro rfl
      exact life.waiting_flags (Has.imp may fun _ joined => joined.1.1)
  | clear =>
      cases cleaner with
      | joiner =>
          obtain ⟨⟨target, isTarget, joinable, unmarked⟩, notYet⟩ := fits
          have joined : target.Joined := Has.of_found may isTarget
          have givenUp : GivenUp state index thread false := by
            refine ⟨⟨target, isTarget, ?_, joined.1, nofun⟩, notYet, fun listed => ?_, ?_⟩
            · rw [joinable]
              rfl
            · cases unmarked.symm.trans ((life.reapList thread listed).of_found isTarget).2
            · intro other caller
              exact tidy.claims.noneAbout life found live (by rw [isPlace]; rfl)
                ⟨target, isTarget, joined.1.1⟩ ⟨target, isTarget, unmarked⟩
          refine ⟨tidy.claims.reclaim givenUp rfl fun _ => ⟨trivial, rfl⟩,
            tidy.records.reclaim found givenUp (by rw [isPlace]; rfl) ?_⟩
          rw [isPlace]
          nofun
      | reaper flags =>
          obtain ⟨isReaper, target, isTarget, reaped⟩ := may
          have detached := ((life.threads thread target isTarget).marked reaped.2).2
          have givenUp : GivenUp state index thread true := by
            refine ⟨⟨target, isTarget, ?_, reaped.1, fun _ => reaped.2⟩, fits.1, fits.2, ?_⟩
            · rw [detached]
              rfl
            · intro other caller
              exact tidy.claims.noneAboutMarked life isReaper ⟨target, isTarget, reaped.2⟩
          exact ⟨tidy.claims.reclaim givenUp rfl fun _ => ⟨trivial, rfl⟩,
            tidy.records.reclaim found givenUp (by rw [isPlace]; rfl) fun _ => rfl⟩

section Collect

variable {flags : Word} {other : Nat} {thread after : RtosThread}

theorem later_collect_move : Later state (state.collect.move index place) := by
  have collected : Later state state.collect := by
    refine ⟨fun other thread isThread => ?_, fun _ => id⟩
    refine ⟨if thread.reapable then thread.unregister else thread, ?_, ?_⟩
    · rw [ThreadsState.collect, List.getElem?_map, isThread]
      rfl
    · split
      · exact ⟨⟨fun ended => ⟨ended, rfl⟩, fun _ => rfl, id, id⟩, Or.inl⟩
      · exact ⟨.refl thread, Or.inl⟩
  exact collected.trans later_move

theorem threads_collect_move : (state.collect.move index place).threads =
    (state.move index place).threads.map fun thread =>
      if thread.reapable then thread.unregister else thread := by
  apply List.ext_getElem?
  intro other
  rw [ThreadsState.move, change, ThreadsState.collect, List.getElem?_map, ThreadsState.move, change]
  by_cases isIt : index = other
  · subst isIt
    rw [List.getElem?_modify_eq, List.getElem?_modify_eq, List.getElem?_map]
    cases state.threads[index]? with
    | none => rfl
    | some thread =>
        change some { (if thread.reapable then thread.unregister else thread) with place := place } =
          some (if thread.reapable then RtosThread.unregister { thread with place := place }
            else { thread with place := place })
        split
        · rfl
        · rfl
  · rw [List.getElem?_modify_ne _ _ isIt, List.getElem?_modify_ne _ _ isIt, List.getElem?_map]

theorem before_collect (isAfter : (state.collect.move index place).threads[other]? = some after) :
    ∃ thread, (state.move index place).threads[other]? = some thread ∧
      (thread.reapable = true ∧ after = thread.unregister ∨ after = thread) := by
  rw [threads_collect_move, List.getElem?_map] at isAfter
  obtain ⟨thread, isThread, rfl⟩ := Option.map_eq_some_iff.mp isAfter
  refine ⟨thread, isThread, ?_⟩
  split
  · exact Or.inl ⟨‹_›, rfl⟩
  · exact Or.inr rfl

theorem after_collect (isThread : (state.move index place).threads[other]? = some thread) :
    (state.collect.move index place).Has other fun after =>
      after.state = thread.state ∧ after.place = thread.place ∧ after.attrBits = thread.attrBits ∧
      (thread.registered = true → thread.marked = false → after.registered = true) := by
  rw [Has, threads_collect_move, List.getElem?_map, isThread]
  refine ⟨_, rfl, ?_⟩
  beta_reduce
  split
  · rename_i reapable
    rw [reapable_eq, Bool.and_eq_true] at reapable
    refine ⟨rfl, rfl, rfl, fun _ unmarked => ?_⟩
    cases reapable.2.symm.trans unmarked
  · exact ⟨rfl, rfl, rfl, fun registered _ => registered⟩

theorem hasEnded_collect_move :
    (state.collect.move index place).hasEnded other = (state.move index place).hasEnded other := by
  rw [hasEnded, hasEnded, threads_collect_move, List.getElem?_map]
  cases (state.move index place).threads[other]? with
  | none => rfl
  | some thread =>
      change decide ((if thread.reapable then thread.unregister else thread).state = .terminated) = _
      split
      · rfl
      · rfl

theorem reapable_before_move (isThread : (state.move index place).threads[other]? = some thread) :
    ∃ old, state.threads[other]? = some old ∧ thread.reapable = old.reapable := by
  rcases getElem?_change isThread with ⟨old, isOld, _, rfl⟩ | ⟨_, isOld⟩
  · exact ⟨old, isOld, rfl⟩
  · exact ⟨thread, isOld, rfl⟩

theorem Claims.collect (life : Life state) (moved : Claims (state.move index (.pop flags)))
    (isReaper : state.reaper = some index) : Claims (state.collect.move index (.pop flags)) := by
  refine moved.kept fun other after isAfter live => Or.inr ?_
  obtain ⟨thread, isThread, choice⟩ := before_collect isAfter
  have sameThread : after.state = thread.state ∧ after.place = thread.place := by
    rcases choice with ⟨_, rfl⟩ | rfl
    · exact ⟨rfl, rfl⟩
    · exact ⟨rfl, rfl⟩
  refine ⟨thread, isThread, sameThread.1 ▸ live, sameThread.2, fun target about former isFormer => ?_,
    fun target _ => hasEnded_collect_move, fun _ _ => id, fun target found_ part isClean => ?_⟩
  · obtain ⟨later, isLater, isState, _, isBits, registers⟩ := after_collect isFormer
    refine ⟨later, isLater, fun _ joins => ?_, fun _ => registers, fun unmarked => ?_, isState.trans⟩
    · rw [joinable, isBits]
      exact joins
    · rw [marked, isBits]
      exact unmarked
  · rcases getElem?_change isThread with ⟨_, _, _, rfl⟩ | ⟨isOther, wasThread⟩
    · cases isClean
    · have may := (life.threads other thread wasThread).place
      rw [isClean] at may
      exact (isOther (Option.some_inj.mp (may.1.symm.trans isReaper))).elim

theorem Records.collect (records : Records state) (moved : Records (state.move index (.pop flags)))
    (isReaper : state.reaper = some index) (found : state.threads[index]? = some own)
    (empty : state.reapList = []) : Records (state.collect.move index (.pop flags)) := by
  refine ⟨records.once, records.alone, records.decided, fun reclaim member => ?_,
    List.nodup_range.filter _, fun other member isReclaimed => ?_, records.released,
    fun other after isAfter unregistered => ?_, fun reaper isSame => ?_, fun none_ => ?_⟩
  · have later := @later_collect_move state index (.pop flags)
    obtain ⟨gone, reaped⟩ := records.gone reclaim member
    exact ⟨later.has lasts_gone gone, fun byReaper => later.has lasts_reaped (reaped byReaper)⟩
  · obtain ⟨_, isReapable⟩ := List.mem_filter.mp member
    obtain ⟨thread, isThread, reapable⟩ := (Option.any_eq_true _ _).mp isReapable
    rw [reapable_eq, Bool.and_eq_true] at reapable
    obtain ⟨reclaim, isReclaim, rfl⟩ := List.mem_map.mp isReclaimed
    cases reapable.1.symm.trans ((records.gone reclaim isReclaim).1.of_found isThread).2
  · obtain ⟨thread, isThread, ⟨reapable, rfl⟩ | rfl⟩ := before_collect isAfter
    · obtain ⟨old, isOld, isReapable⟩ := reapable_before_move isThread
      refine Or.inr (Or.inr (List.mem_filter.mpr
        ⟨List.mem_range.mpr (List.getElem?_eq_some_iff.mp isOld).1, ?_⟩))
      rw [isOld]
      exact isReapable.symm.trans reapable
    · rcases moved.left other after isThread unregistered with done | cleaned | listed
      · exact Or.inl done
      · obtain ⟨cleaner, caller, isCaller, liveCaller, isCleaned⟩ := cleaned
        obtain ⟨still, isStill, isState, isPlace, _⟩ := after_collect isCaller
        exact Or.inr (Or.inl ⟨cleaner, still, isStill, isState ▸ liveCaller, isPlace ▸ isCleaned⟩)
      · change other ∈ state.reapList at listed
        rw [empty] at listed
        cases listed
  · obtain rfl := Option.some_inj.mp (isReaper.symm.trans isSame)
    obtain ⟨caller, isCaller, liveCaller, _⟩ := moved.reaper index isReaper
    obtain ⟨still, isStill, isState, isPlace, _⟩ := after_collect isCaller
    refine ⟨still, isStill, isState ▸ liveCaller, Or.inl ?_⟩
    obtain rfl := Option.some_inj.mp ((getElem?_change_self found).symm.trans isCaller)
    rw [isPlace]
    rfl
  · cases isReaper.symm.trans none_

theorem Tidy.collect (life : Life state) (tidy : Tidy state) (isReaper : state.reaper = some index)
    (found : state.threads[index]? = some own) (isPlace : own.place = .collect flags) :
    Tidy (state.collect.move index (.pop flags)) := by
  have moved : Tidy (state.move index (.pop flags)) := by
    refine tidy.leave found ?_ ?_ trivial rfl
    · rw [isPlace]
      rfl
    · rw [isPlace]
      rfl
  have empty : state.reapList = [] := by
    have idle := ((tidy.records.reaper index isReaper).of_found found).2
    rw [isPlace] at idle
    exact idle.resolve_left nofun
  exact ⟨moved.claims.collect life isReaper,
    tidy.records.collect moved.records isReaper found empty⟩

end Collect

theorem Tidy.pop (tidy : Tidy state) (isReaper : state.reaper = some index)
    (found : state.threads[index]? = some own) {flags : Word} (isPlace : own.place = .pop flags)
    {thread : Nat} {rest : List Nat} (isList : state.reapList = thread :: rest) :
    Tidy ({ state with reapList := rest }.move index (.clean thread .mutexes (.reaper flags))) := by
  have nodup := tidy.records.nodup
  rw [isList] at nodup
  obtain ⟨notIn, nodupRest⟩ := List.nodup_cons.mp nodup
  have member : thread ∈ state.reapList := isList ▸ List.mem_cons_self
  have shorter : ∀ other ∈ rest, other ∈ state.reapList := fun other isRest =>
    isList ▸ List.mem_cons_of_mem thread isRest
  have live := ((tidy.records.reaper index isReaper).of_found found).1
  have moved : Records (state.move index (.clean thread .mutexes (.reaper flags))) := by
    refine tidy.records.move found (fun other isCleaned => ?_) fun _ => Or.inl rfl
    rw [isPlace] at isCleaned
    cases isCleaned
  refine ⟨tidy.claims.move rfl rfl shorter ⟨tidy.records.pending thread member, notIn⟩ nofun,
    moved.once, moved.alone, moved.decided, moved.gone, nodupRest, fun other isRest =>
      tidy.records.pending other (shorter other isRest), moved.released,
    fun other after isAfter unregistered => ?_, fun reaper isSame => ?_, fun none_ => ?_⟩
  · rcases moved.left other after isAfter unregistered with done | cleaned | listed
    · exact Or.inl done
    · exact Or.inr (Or.inl cleaned)
    · change other ∈ state.reapList at listed
      rw [isList] at listed
      rcases List.mem_cons.mp listed with rfl | isRest
      · exact Or.inr (Or.inl ⟨index, _, getElem?_change_self found, live, rfl⟩)
      · exact Or.inr (Or.inr isRest)
  · obtain rfl := Option.some_inj.mp (isReaper.symm.trans isSame)
    exact ⟨_, getElem?_change_self found, live, Or.inl rfl⟩
  · cases isReaper.symm.trans none_

theorem Tidy.schedule (tidy : Tidy state) (found : state.threads[index]? = some own)
    (live : own.state ≠ .terminated) {taskState : TaskState} (stays : taskState ≠ .terminated) :
    Tidy (state.change index fun thread => { thread with state := taskState }) := by
  have isOwn : ∀ thread, state.threads[index]? = some thread → thread = own := fun thread isThread =>
    Option.some_inj.mp (isThread.symm.trans found)
  have keeps : ∀ {reaper : Nat} (property : ThreadPlace → Prop),
      (state.Has reaper fun own => own.state ≠ .terminated ∧ property own.place) →
      (state.change index fun thread => { thread with state := taskState }).Has reaper fun own =>
        own.state ≠ .terminated ∧ property own.place := by
    intro reaper property has
    refine has_change has ?_ fun _ _ _ holds => holds
    rintro _ thread _ ⟨_, holds⟩
    exact ⟨stays, holds⟩
  constructor
  · refine tidy.claims.change rfl (fun _ => rfl) (fun thread isThread _ => isOwn thread isThread ▸ live)
      fun other caller isCaller liveCaller _ => ?_
    refine unharmed_of_change rfl (fun _ _ => id) (fun _ => id) fun _ => ⟨fun thread isThread => ?_, fun _ => ?_⟩
    · obtain rfl := isOwn thread isThread
      exact ⟨_, getElem?_change_self isThread, fun _ => id, fun _ registered _ => registered, id, fun ended =>
        (live ended).elim⟩
    · rw [hasEnded, hasEnded, getElem?_change_self found, found, Option.any_some, Option.any_some,
        decide_eq_false live]
      exact decide_eq_false stays
  · refine tidy.records.congr (later_change fun thread isThread => ?_) rfl rfl rfl
      (fun other after isAfter unregistered => ?_) ?_ ?_
    · obtain rfl := isOwn thread isThread
      exact ⟨⟨fun ended => (live ended).elim, id, id, id⟩, Or.inl⟩
    · rcases getElem?_change isAfter with ⟨thread, isThread, rfl, rfl⟩ | ⟨_, isThread⟩
      · exact ⟨thread, isThread, unregistered⟩
      · exact ⟨after, isThread, unregistered⟩
    · rintro thread ⟨cleaner, has⟩
      exact ⟨cleaner, keeps (·.cleans = some thread) has⟩
    · intro reaper isReaper
      exact keeps (fun place => place.takes = true ∨ state.reapList = [])
        (tidy.records.reaper reaper isReaper)

theorem waitStep_eq {wish : FlagsWish} {timeout : Word} {after : AfterWait} {place : WaitPlace wish}
    {answer : Result} (moved : waitStep index object wish timeout after place answer state = some next) :
    ∃ words goal, next = { state.move index (.wait object wish timeout goal after) with words := words } := by
  cases place with
  | _ =>
      obtain rfl := Option.some_inj.mp moved
      exact ⟨_, _, rfl⟩

theorem Tidy.terminate (life : Life state) (tidy : Tidy state) (found : state.threads[index]? = some own)
    {thread : Nat} (isPlace : own.place = .terminate thread) {target : RtosThread}
    (isTarget : state.threads[thread]? = some target) (targetLive : target.state ≠ .terminated)
    (alone : EndsAlone state index thread) (answer : Result) :
    Tidy ((state.endTask thread target answer).move index .outside) := by
  have moved : Tidy (state.move index .outside) := by
    refine tidy.leave found ?_ ?_ trivial rfl
    · rw [isPlace]
      rfl
    · rw [isPlace]
      rfl
  have lifeMoved : Life (state.move index .outside) := life.move mayBe_outside
  obtain ⟨after, isAfter, isState, isBits, notCleaner⟩ : ∃ after,
      (state.move index .outside).threads[thread]? = some after ∧ after.state = target.state ∧
        after.joinable = target.joinable ∧ after.place.cleans = none := by
    by_cases isIt : thread = index
    · subst isIt
      exact ⟨_, getElem?_change_self isTarget, rfl, rfl, rfl⟩
    · refine ⟨target, (getElem?_change_ne isIt).trans isTarget, rfl, rfl, ?_⟩
      have none_ := alone.notCleaner
      rw [isTarget] at none_
      exact none_
  have ends := moved.endTask lifeMoved isAfter (isState ▸ targetLive) (fun other caller isOther isCaller
    liveCaller seen => ?_) alone.notReaper notCleaner answer
  · obtain ⟨words, aborted, isEnd⟩ := endTask_eq (state.move index .outside) thread after answer
    obtain ⟨words', aborted', isEnd'⟩ := endTask_eq state thread target answer
    rw [isEnd] at ends
    rw [isEnd']
    refine ends.congr ?_ rfl rfl rfl rfl
    rw [isBits]
    refine threads_change_move fun other place => ?_
    rw [endAs, endAs]
    cases target.joinable with
    | _ => rfl
  · rcases getElem?_change isCaller with ⟨_, _, _, rfl⟩ | ⟨notIndex, wasCaller⟩
    · cases seen
    · have unseen := others_eq_false.mp alone.unseen other caller ?_ wasCaller liveCaller
      · exact of_decide_eq_false unseen seen
      · rw [List.mem_cons, List.mem_singleton, not_or]
        exact ⟨notIndex, isOther⟩

theorem hasEnded_of_found {thread : Nat} {target : RtosThread}
    (isTarget : state.threads[thread]? = some target) :
    state.hasEnded thread = decide (target.state = .terminated) := by
  rw [hasEnded, isTarget]
  rfl

theorem Tidy.osThreadExit (life : Life state) (tidy : Tidy state)
    (found : state.threads[index]? = some own) (live : own.state ≠ .terminated)
    (cleans : own.place.cleans = none) (takes : own.place.takes = false) :
    Tidy (osThreadExit index own state) := by
  rw [PicoToolkit.osThreadExit]
  split
  · have still := @getElem?_ensureFor state index own own found
    refine (tidy.ensureFor own).leave still cleans takes ⟨own, still, ?_⟩ ?_
    · change own.marked = false
      rw [← Bool.not_eq_true]
      intro marked
      exact live ((life.threads index own found).marked marked).1
    · rw [ThreadsState.claims, hasEnded_of_found still, decide_eq_false live]
      rfl
  · exact tidy.abort _

theorem Tidy.reaperDone (tidy : Tidy state) (found : state.threads[index]? = some own)
    (cleans : own.place.cleans = none) (takes : own.place.takes = false) (flags : Word) :
    Tidy (reaperDone flags index state) := by
  rw [PicoToolkit.reaperDone]
  split
  · exact tidy.abort _
  · exact tidy.leave found cleans takes trivial rfl

theorem Tidy.keep (tidy : Tidy state) (found : state.threads[index]? = some own)
    (live : own.state ≠ .terminated) (cleans : own.place.cleans = none) (takes : own.place.takes = false)
    (fits : Fits state place) (claims : state.claims place = state.claims own.place) :
    Tidy (state.move index place) := by
  refine tidy.move found (fun thread isCleaned => ?_) (fun isTaking => ?_) fits fun thread claimed => ?_
  · cases cleans.symm.trans isCleaned
  · cases takes.symm.trans isTaking
  · exact tidy.claims.free found live (claims.symm.trans claimed)

theorem Tidy.threadStep (life : Life state) (counts : state.Counts) (tidy : Tidy state)
    (found : state.threads[index]? = some own) (live : own.state ≠ .terminated)
    (alone : ∀ thread, own.place.terminates = some thread → state.hasEnded thread = false →
      EndsAlone state index thread) {answer : Result}
    (moved : threadStep index answer own state = some next) : Tidy next := by
  have may := (life.threads index own found).place
  have fits := tidy.claims.fits index own found live
  cases threadMoves moved with
  | @wait object wish timeout place after _ isPlace moved =>
      rw [isPlace] at fits
      obtain ⟨words, goal, rfl⟩ := waitStep_eq moved
      have goes : Tidy (state.move index (.wait object wish timeout goal after)) := by
        refine tidy.keep found live (by rw [isPlace]; rfl) (by rw [isPlace]; rfl) ?_ ?_
        · cases after with
          | _ => exact fits
        · rw [isPlace]
          cases after with
          | _ => rfl
      exact goes.congr rfl rfl rfl rfl rfl
  | exit isPlace =>
      exact tidy.osThreadExit life found live (by rw [isPlace]; rfl) (by rw [isPlace]; rfl)
  | @afterWait object wish timeout value after isPlace =>
      have cleans : own.place.cleans = none := by rw [isPlace]; rfl
      have takes : own.place.takes = false := by rw [isPlace]; rfl
      rw [isPlace] at fits
      cases after with
      | leave => exact tidy.leave found cleans takes trivial rfl
      | join thread =>
          rw [afterWait]
          split
          · exact tidy.leave found cleans takes trivial rfl
          · refine tidy.keep found live cleans takes fits ?_
            rw [isPlace]
            rfl
      | reap =>
          rw [afterWait]
          split
          · exact tidy.abort _
          · split
            · exact tidy.leave found cleans takes trivial rfl
            · exact tidy.reaperDone found cleans takes value
  | @delete object isPlace =>
      refine (tidy.recordDelete object false).leave found ?_ ?_ trivial rfl
      · rw [isPlace]
        rfl
      · rw [isPlace]
        rfl
  | remove isPlace => exact tidy.unregister life found live isPlace
  | clean isPlace => exact tidy.cleanStep life counts found live isPlace answer
  | @terminated thread target isPlace isTarget ended =>
      rw [isPlace] at fits
      refine tidy.keep found live ?_ ?_ ⟨target, isTarget, fits.of_found isTarget, ended⟩ ?_
      · rw [isPlace]
        rfl
      · rw [isPlace]
        rfl
      · rw [isPlace, ThreadsState.claims, ThreadsState.claims, hasEnded_of_found isTarget,
          decide_eq_true ended]
        rfl
  | @terminate thread target isPlace isTarget targetLive =>
      refine tidy.terminate life found isPlace isTarget targetLive (alone thread ?_ ?_) answer
      · rw [isPlace]
        rfl
      · rw [hasEnded_of_found isTarget, decide_eq_false targetLive]
  | ended isPlace | detached isPlace _ _ =>
      refine tidy.leave found ?_ ?_ trivial rfl
      · rw [isPlace]
        rfl
      · rw [isPlace]
        rfl
  | detach isPlace => exact tidy.detach life found live isPlace
  | mark isPlace isTarget ended _ =>
      exact tidy.markReap life found live isPlace ⟨_, isTarget, ended_of_osThreadGetState ended⟩
  | kick isPlace isTarget ended _ =>
      have marked := tidy.markReap life found live isPlace
        ⟨_, isTarget, ended_of_osThreadGetState ended⟩
      exact marked.congr rfl rfl rfl rfl rfl
  | invalid _ _ => exact tidy.abort _
  | @reaped flags isPlace _ =>
      refine tidy.reaperDone found ?_ ?_ flags
      · rw [isPlace]
        rfl
      · rw [isPlace]
        rfl
  | collect isPlace _ =>
      rw [isPlace] at may
      exact tidy.collect life may found isPlace
  | popped isPlace empty =>
      refine tidy.move found ?_ (fun _ => Or.inr empty) trivial fun _ same => by cases same
      rw [isPlace]
      exact fun _ same => by cases same
  | pop isPlace isList =>
      rw [isPlace] at may
      exact tidy.pop may found isPlace isList

theorem Tidy.beginRequest (life : Life state) (tidy : Tidy state)
    (found : state.threads[index]? = some own) (live : own.state ≠ .terminated)
    (isOutside : own.place = .outside) {request : ThreadRequest}
    (separate : Separate state (.request index request)) :
    Tidy (beginRequest index own state request) := by
  have cleans : own.place.cleans = none := by rw [isOutside]; rfl
  have takes : own.place.takes = false := by rw [isOutside]; rfl
  have unmarked : ∀ (thread : Nat) (target : RtosThread), state.threads[thread]? = some target →
      target.joinable = true ∨ target.state ≠ .terminated → target.marked = false := by
    intro thread target isTarget kind
    rw [← Bool.not_eq_true]
    intro marked
    obtain ⟨ended, detached⟩ := (life.threads thread target isTarget).marked marked
    rcases kind with joinable | targetLive
    · cases joinable.symm.trans detached
    · exact targetLive ended
  have enters : ∀ {ensured : ThreadsState} {place : ThreadPlace}, Tidy ensured →
      ensured.threads[index]? = some own → Fits ensured place →
      (∀ thread, ensured.claims place = some thread → Free ensured index thread) →
      Tidy (ensured.move index place) := by
    intro ensured place isTidy still fits free
    refine isTidy.move still (fun thread isCleaned => ?_) (fun isTaking => ?_) fits free
    · cases cleans.symm.trans isCleaned
    · cases takes.symm.trans isTaking
  cases request with
  | osEventFlagsWait address wish timeout => exact tidy.leave found cleans takes trivial rfl
  | osEventFlagsDelete address => exact tidy.leave found cleans takes trivial rfl
  | osThreadFlagsWait wish timeout =>
      rw [PicoToolkit.beginRequest]
      split
      · exact tidy.leave found cleans takes trivial rfl
      · exact tidy
  | osThreadFlagsClear flags =>
      rw [PicoToolkit.beginRequest]
      split
      · exact tidy.setWord _ _ _
      · exact tidy
  | osThreadJoin thread =>
      rw [PicoToolkit.beginRequest]
      split
      · rename_i allowed
        obtain ⟨target, isTarget, can⟩ := (Option.any_eq_true _ _).mp allowed
        rw [canJoin] at can
        simp only [Bool.and_eq_true] at can
        obtain ⟨⟨⟨⟨registered, _⟩, _⟩, joinable⟩, _⟩ := can
        refine enters tidy found
          ⟨target, isTarget, joinable, registered, unmarked thread target isTarget (Or.inl joinable)⟩ ?_
        rintro other ⟨⟩
        exact free_of_claimed separate
      · exact tidy
  | osThreadDetach thread =>
      rw [PicoToolkit.beginRequest]
      split
      · rename_i allowed
        obtain ⟨target, isTarget, can⟩ := (Option.any_eq_true _ _).mp allowed
        rw [Bool.and_eq_true] at can
        refine enters tidy.ensureReaper (getElem?_ensureReaper found) ⟨target,
          getElem?_ensureReaper isTarget, can.2, unmarked thread target isTarget (Or.inl can.2)⟩ ?_
        rintro other ⟨⟩
        exact (free_of_claimed separate).ensureReaper tidy.claims
      · exact tidy
  | osThreadTerminate thread =>
      rw [PicoToolkit.beginRequest]
      split
      · exact tidy
      · rename_i target isTarget
        split
        · have still := @getElem?_ensureFor state thread target target isTarget
          refine enters (tidy.ensureFor target) (getElem?_ensureFor found) ⟨target, still, ?_⟩ ?_
          · by_cases targetLive : target.state = .terminated
            · have isUnmarked := (separate (by rw [hasEnded_of_found isTarget, decide_eq_true targetLive])).2
              rw [isTarget, Option.all_some, Bool.not_eq_true'] at isUnmarked
              exact isUnmarked
            · exact unmarked thread target isTarget (Or.inr targetLive)
          · intro other claimed
            rw [ThreadsState.claims, hasEnded_of_found still] at claimed
            split at claimed
            · rename_i ended
              obtain rfl := Option.some_inj.mp claimed
              refine (free_of_claimed (separate ?_).1).ensureFor tidy.claims target
              rw [hasEnded_of_found isTarget]
              exact ended
            · cases claimed
        · exact tidy
  | osThreadExit => exact tidy.osThreadExit life found live cleans takes

theorem Tidy.step (life : Life state) (counts : state.Counts) (tidy : Tidy state)
    {action : ThreadAction} (separate : Separate state action)
    (moved : state.step action = some next) : Tidy next := by
  cases threadSteps moved with
  | osThreadNew _ => exact tidy.append rfl rfl rfl rfl (Or.inl rfl) rfl nofun ⟨rfl, trivial⟩
  | request _ found isOutside live => exact tidy.beginRequest life found live isOutside separate
  | advance found live isNext =>
      refine tidy.threadStep life counts found live (fun thread terminates => separate thread ?_) isNext
      rw [found]
      exact terminates
  | schedule found live stays => exact tidy.schedule found live stays
  | evict wakeStatus found live =>
      have notCleaner := separate.notCleaner
      rw [found] at notCleaner
      refine tidy.endTask life found live (fun other caller isOther isCaller liveCaller => ?_)
        separate.notReaper notCleaner wakeStatus
      refine of_decide_eq_false (others_eq_false.mp separate.unseen other caller ?_ isCaller liveCaller)
      rw [List.mem_cons, List.mem_singleton, or_self]
      exact isOther
  | osEventFlagsSet _ | osEventFlagsClear _ | osThreadFlagsSet _ _ => exact tidy.setWord _ _ _
  | robustMutexes _ => exact tidy.congr rfl rfl rfl rfl rfl

theorem Tidy.initial (begins : threadsSystem.initial state) : Tidy state := by
  obtain ⟨⟨attrBits, _, threads⟩, _, reaper, reapList, _, _, reclaims, released, _⟩ := begins
  have isNew : ∀ (index : Nat) (thread : RtosThread), state.threads[index]? = some thread →
      index = 0 ∧ thread = RtosThread.new attrBits := by
    intro index thread found
    rw [threads] at found
    have isFirst := (List.getElem?_eq_some_iff.mp found).1
    exact ⟨Nat.lt_one_iff.mp isFirst, List.mem_singleton.mp (List.mem_of_getElem? found)⟩
  refine ⟨⟨fun index own found _ => ?_, fun index other own caller thread isOwn _ _ _ claimed => ?_⟩,
    ?_, ?_, ?_, ?_, ?_, ?_, ?_, fun index thread found unregistered => ?_, fun other isReaper => ?_,
    fun _ => reapList⟩
  · rw [(isNew index own found).2]
    trivial
  · rw [(isNew index own isOwn).2] at claimed
    cases claimed
  · rw [reclaims]
    exact List.nodup_nil
  · rw [reclaims]
    exact List.forall_mem_nil _
  · rw [reclaims]
    exact List.forall_mem_nil _
  · rw [reclaims]
    exact List.forall_mem_nil _
  · rw [reapList]
    exact List.nodup_nil
  · rw [reapList]
    exact List.forall_mem_nil _
  · rw [released]
    exact List.nil_sublist _
  · rw [(isNew index thread found).2] at unregistered
    cases unregistered
  · cases reaper.symm.trans isReaper

end Tidy

section Runs

instance (state : ThreadsState) (index thread : Nat) : Decidable (EndsAlone state index thread) :=
  decidable_of_iff (state.others [index, thread] (fun place => decide (place.looksAt = some thread)) = false ∧
      state.reaper ≠ some thread ∧
      state.threads[thread]?.bind (fun own => own.place.cleans) = none)
    ⟨fun ⟨unseen, notReaper, notCleaner⟩ => ⟨unseen, notReaper, notCleaner⟩,
      fun alone => ⟨alone.unseen, alone.notReaper, alone.notCleaner⟩⟩

instance (state : ThreadsState) : (action : ThreadAction) → Decidable (Separate state action)
  | .request index (.osThreadJoin thread) | .request index (.osThreadDetach thread) =>
      inferInstanceAs (Decidable (state.claimed index thread = false))
  | .request index (.osThreadTerminate thread) => inferInstanceAs (Decidable (state.hasEnded thread = true →
      state.claimed index thread = false ∧
        state.threads[thread]?.all (fun target => !target.marked) = true))
  | .advance index _ => inferInstanceAs (Decidable
      (∀ thread ∈ state.threads[index]?.bind fun own => own.place.terminates,
        state.hasEnded thread = false → EndsAlone state index thread))
  | .evict thread _ => inferInstanceAs (Decidable (EndsAlone state thread thread))
  | .request _ (.osEventFlagsWait ..) | .request _ (.osEventFlagsDelete _)
  | .request _ (.osThreadFlagsWait ..) | .request _ (.osThreadFlagsClear _) | .request _ .osThreadExit
  | .osThreadNew _ | .schedule _ _ | .osEventFlagsSet _ _ | .osEventFlagsClear _ _
  | .osThreadFlagsSet _ _ | .robustMutexes _ => isTrue trivial

instance (state : ThreadsState) (action : ThreadAction) : Decidable (SeparateStep state action) :=
  decidable_of_iff (NewUnmarked action ∧ SparesWaiters state action ∧ Separate state action)
    ⟨fun ⟨unmarked, waiters, separate⟩ => ⟨unmarked, waiters, separate⟩,
      fun separate => ⟨separate.unmarked, separate.waiters, separate.separate⟩⟩

/-- One thread is joined, one exits when it is not joinable, one is detached after it has ended, and one that
has ended stays. -/
def separateRun : List ThreadAction :=
  [ThreadAction.osThreadNew osThreadJoinable, .osThreadNew 0, .osThreadNew osThreadJoinable,
    .osThreadNew osThreadJoinable, .request 0 (.osThreadJoin 1)] ++ advances 2 0 ++
    [ThreadAction.request 1 .osThreadExit] ++ advances 1 1 ++ advances 10 0 ++
    [ThreadAction.request 2 .osThreadExit] ++ advances 1 2 ++
    [ThreadAction.request 3 .osThreadExit] ++ advances 1 3 ++
    [ThreadAction.request 4 .osThreadExit] ++ advances 1 4 ++
    [ThreadAction.request 0 (.osThreadDetach 3)] ++ advances 2 0 ++ advances 17 5

def joinedTwiceRun : List ThreadAction :=
  [ThreadAction.osThreadNew (osThreadJoinable ||| osDynamicAlloc), .osThreadNew 0,
    .request 0 (.osThreadJoin 1)] ++ advances 2 0 ++
    [ThreadAction.request 2 (.osThreadJoin 1)] ++ advances 2 2 ++
    [ThreadAction.request 1 .osThreadExit] ++ advances 1 1 ++ advances 3 0 ++ advances 3 2 ++
    advances 7 0 ++ advances 7 2

end Runs

end PicoToolkit
