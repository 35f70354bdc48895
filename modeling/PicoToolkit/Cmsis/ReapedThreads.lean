import PicoToolkit.Cmsis.WaiterDeletes

/-!
Threads that are not joinable when they end: the exit handler leaves them to the reaper, which does not wait
again before it has given up the control blocks of all of them.
-/

namespace PicoToolkit

open Transition Interleaving ThreadsState RtosThread

def RtosThread.dynamic (thread : RtosThread) : Bool := decide (thread.attrBits &&& osDynamicAlloc ≠ 0)

def ThreadPlace.blocks : ThreadPlace → Bool
  | .wait _ _ _ (.inl (.wait _)) _ => true
  | _ => false

def ReaperBlocked (state : ThreadsState) : Prop :=
  ∃ reaper, state.reaper = some reaper ∧
    state.words (.flags reaper) someFlags.flags &&& rtosReaperClean = 0 ∧
    state.Has reaper fun own => own.state ≠ .terminated ∧ own.place.blocks = true

structure EndedReaped (state : ThreadsState) : Prop where
  handler : state.aborted ≠ some .exitHandler
  reaped : ReaperBlocked state → ∀ (index : Nat) (thread : RtosThread), state.threads[index]? = some thread →
    thread.endedDetached = true →
    thread.registered = false ∧ (thread.dynamic = true → index ∈ state.released)

/-- A task ends by eviction only when there is a reaper for its thread or a joiner is to come, and the wake
from the exit handler does not fail. -/
def EndsSafely (state : ThreadsState) : ThreadAction → Prop
  | .evict index wakeStatus => wakeStatus.negative = false ∧
      (state.reaper.isSome = true ∨ state.threads[index]?.all RtosThread.joinable = true)
  | .advance index answer =>
      (state.threads[index]?.bind fun own => own.place.terminates).isSome = true →
        answer.negative = false
  | _ => True

structure ReapingStep (state : ThreadsState) (action : ThreadAction) : Prop where
  unmarked : NewUnmarked action
  ends : EndsSafely state action

def ThreadPlace.reaps : ThreadPlace → Option Nat
  | .clean thread _ (.reaper _) => some thread
  | _ => none

def Cleans (state : ThreadsState) (thread : Nat) : Prop :=
  ∃ reaper, state.reaper = some reaper ∧ state.Has reaper fun own => own.place.reaps = some thread

def Pending (state : ThreadsState) (reaper : Nat) : Prop :=
  state.words (.flags reaper) someFlags.flags &&& rtosReaperClean ≠ 0 ∨
    ∀ (index : Nat) (thread : RtosThread), state.threads[index]? = some thread → thread.registered = true →
      thread.marked = false

/-- The reaper goes to its wait only with an empty list, and does not wait when it has something to do. -/
def Watches (state : ThreadsState) (reaper : Nat) : ThreadPlace → Prop
  | .wait _ _ _ (.inl .enter) _ | .wait _ _ _ (.inl .load) _ | .wait _ _ _ (.inl (.wait _)) _ =>
      state.reapList = [] ∧ Pending state reaper
  | .wait _ _ _ _ _ | .collect _ => state.reapList = []
  | _ => True

structure Kept (state : ThreadsState) : Prop where
  gone : ∀ (index : Nat) (thread : RtosThread), state.threads[index]? = some thread → thread.registered = false →
    thread.state = .terminated
  taken : ∀ (index : Nat) (thread : RtosThread), state.threads[index]? = some thread → thread.endedDetached = true →
    thread.registered = false →
    index ∈ state.reapList ∨ Cleans state index ∨ (thread.dynamic = true → index ∈ state.released)
  idle : state.reaper = none → state.reapList = [] ∧
    ∀ (index : Nat) (thread : RtosThread), state.threads[index]? = some thread → thread.marked = false
  handler : state.aborted ≠ some .exitHandler

structure Watch (state : ThreadsState) : Prop extends Kept state where
  reaper : ∀ reaper, state.reaper = some reaper →
    state.Has reaper fun own => Watches state reaper own.place

theorem dynamic_markReap (thread : RtosThread) : thread.markReap.dynamic = thread.dynamic := by
  rw [dynamic, markReap, BitVec.and_or_distrib_right]
  exact congrArg (fun bits => decide (bits ≠ 0)) BitVec.or_zero

theorem dynamic_detach (thread : RtosThread) : thread.detach.dynamic = thread.dynamic := by
  rw [dynamic, detach, BitVec.and_assoc, show ~~~osThreadJoinable &&& osDynamicAlloc = osDynamicAlloc by
    decide]
  rfl

section Watch

variable {state next : ThreadsState} {index : Nat} {place : ThreadPlace} {own : RtosThread}
  {update : RtosThread → RtosThread} {object : EventObject}

theorem Watches.congr {reaper : Nat} (watches : Watches state reaper place)
    (reapList : state.reapList = [] → next.reapList = [])
    (pending : Pending state reaper → Pending next reaper) : Watches next reaper place := by
  cases place with
  | wait object wish timeout place after =>
      rcases place with place | value
      · cases place with
        | enter => exact ⟨reapList watches.1, pending watches.2⟩
        | load => exact ⟨reapList watches.1, pending watches.2⟩
        | wait expected => exact ⟨reapList watches.1, pending watches.2⟩
        | leave exit => exact reapList watches
        | consume => exact reapList watches
      · exact reapList watches
  | collect flags => exact reapList watches
  | _ => trivial

theorem Watch.congr (watch : Watch state) (threads : next.threads = state.threads)
    (reaper : next.reaper = state.reaper) (reapList : next.reapList = state.reapList)
    (released : ∀ thread ∈ state.released, thread ∈ next.released)
    (words : ∀ reaper, state.reaper = some reaper →
      state.words (.flags reaper) someFlags.flags &&& rtosReaperClean ≠ 0 →
      next.words (.flags reaper) someFlags.flags &&& rtosReaperClean ≠ 0)
    (handler : next.aborted ≠ some .exitHandler) : Watch next := by
  refine ⟨⟨?_, ?_, ?_, handler⟩, ?_⟩
  · rw [threads]
    exact watch.gone
  · rw [threads, reapList]
    intro index thread found ended left
    rcases watch.taken index thread found ended left with member | ⟨other, isReaper, has⟩ | free
    · exact Or.inl member
    · refine Or.inr (Or.inl ⟨other, reaper.trans isReaper, ?_⟩)
      rw [Has, threads]
      exact has
    · exact Or.inr (Or.inr fun isDynamic => released index (free isDynamic))
  · rw [threads, reaper, reapList]
    exact watch.idle
  · intro other isReaper
    rw [reaper] at isReaper
    rw [Has, threads]
    refine Has.imp (watch.reaper other isReaper) fun own watches => watches.congr reapList.trans ?_
    intro pending
    rw [Pending, threads]
    exact pending.imp (words other isReaper) id

structure Unnoticed (state : ThreadsState) (index : Nat) (thread after : RtosThread) : Prop where
  place : state.reaper = some index → after.place = thread.place
  registered : after.registered = thread.registered
  ended : thread.state = .terminated → after.state = .terminated
  detached : after.endedDetached = true → thread.endedDetached = true ∨ thread.registered = true
  dynamic : after.dynamic = thread.dynamic
  marked : after.marked = true → thread.marked = true ∨ ∃ reaper, state.reaper = some reaper ∧
    state.words (.flags reaper) someFlags.flags &&& rtosReaperClean ≠ 0

theorem Watch.change (watch : Watch state)
    (unnoticed : ∀ thread, state.threads[index]? = some thread →
      Unnoticed state index thread (update thread)) : Watch (state.change index update) := by
  have before : ∀ {other : Nat} {after : RtosThread},
      (state.change index update).threads[other]? = some after →
      ∃ thread, state.threads[other]? = some thread ∧ Unnoticed state other thread after := by
    intro other after found
    rcases getElem?_change found with ⟨thread, isThread, rfl, rfl⟩ | ⟨_, isThread⟩
    · exact ⟨thread, isThread, unnoticed thread isThread⟩
    · exact ⟨after, isThread, fun _ => rfl, rfl, id, Or.inl, rfl, Or.inl⟩
  have keeps : ∀ {reaper : Nat} (property : ThreadPlace → Prop), state.reaper = some reaper →
      (state.Has reaper fun own => property own.place) →
      (state.change index update).Has reaper fun own => property own.place := by
    intro reaper property isReaper has
    refine has_change has ?_ fun _ _ _ holds => holds
    rintro rfl thread found holds
    rw [(unnoticed thread found).place isReaper]
    exact holds
  refine ⟨⟨fun other after found left => ?_, fun other after found ended left => ?_,
    fun none_ => ⟨(watch.idle none_).1, fun other after found => ?_⟩, watch.handler⟩,
    fun reaper isReaper => ?_⟩
  · obtain ⟨thread, isThread, same⟩ := before found
    exact same.ended (watch.gone other thread isThread (same.registered.symm.trans left))
  · obtain ⟨thread, isThread, same⟩ := before found
    have wasLeft := same.registered.symm.trans left
    have wasEnded : thread.endedDetached = true := by
      rcases same.detached ended with already | registered
      · exact already
      · cases registered.symm.trans wasLeft
    rw [same.dynamic]
    rcases watch.taken other thread isThread wasEnded wasLeft with member | ⟨reaper, isReaper, has⟩ | free
    · exact Or.inl member
    · exact Or.inr (Or.inl ⟨reaper, isReaper, keeps (·.reaps = some other) isReaper has⟩)
    · exact Or.inr (Or.inr free)
  · obtain ⟨thread, isThread, same⟩ := before found
    rw [← Bool.not_eq_true]
    intro marked
    rcases same.marked marked with was | ⟨_, isSome, _⟩
    · cases was.symm.trans ((watch.idle none_).2 other thread isThread)
    · cases isSome.symm.trans none_
  · refine keeps (Watches _ reaper) isReaper ((watch.reaper reaper isReaper).imp fun own watches =>
      watches.congr id fun pending => ?_)
    rcases pending with told | nothing
    · exact Or.inl told
    · by_cases told : state.words (.flags reaper) someFlags.flags &&& rtosReaperClean = 0
      · refine Or.inr fun other after found registered => ?_
        obtain ⟨thread, isThread, same⟩ := before found
        have unmarked := nothing other thread isThread (same.registered.symm.trans registered)
        rw [← Bool.not_eq_true]
        intro marked
        rcases same.marked marked with was | ⟨_, isSame, isTold⟩
        · cases was.symm.trans unmarked
        · obtain rfl := Option.some_inj.mp (isReaper.symm.trans isSame)
          exact isTold told
      · exact Or.inl told

theorem Watch.move (watch : Watch state) (notReaper : state.reaper ≠ some index) :
    Watch (state.move index place) :=
  watch.change fun _ _ => ⟨fun isReaper => (notReaper isReaper).elim, rfl, id, Or.inl, rfl, Or.inl⟩

theorem Watch.setWord (watch : Watch state) {address value : Word}
    (other : ∀ reaper, state.reaper = some reaper → object = .flags reaper →
      address ≠ someFlags.flags) : Watch (state.setWord object address value) := by
  refine watch.congr rfl rfl rfl (fun _ => id) (fun reaper isReaper told => ?_) watch.handler
  change Function.update state.words object _ (.flags reaper) someFlags.flags &&& _ ≠ 0
  by_cases isIt : EventObject.flags reaper = object
  · rw [isIt, Function.update_self, Function.update_of_ne (other reaper isReaper isIt.symm).symm, ← isIt]
    exact told
  · rw [Function.update_of_ne isIt]
    exact told

theorem Watch.setFlags (watch : Watch state) (flags : Word) : Watch (state.setFlags object flags) := by
  refine watch.congr rfl rfl rfl (fun _ => id) (fun reaper isReaper told => ?_) watch.handler
  change Function.update state.words object _ (.flags reaper) someFlags.flags &&& _ ≠ 0
  by_cases isIt : EventObject.flags reaper = object
  · rw [isIt, Function.update_self, Function.update_self, ← isIt]
    exact wish_or_ne_zero told
  · rw [Function.update_of_ne isIt]
    exact told

theorem Watch.abort (watch : Watch state) {aborter : Aborter} (other : aborter ≠ .exitHandler) :
    Watch (state.abort aborter) :=
  watch.congr rfl rfl rfl (fun _ => id) (fun _ _ => id) fun isHandler => other (Option.some_inj.mp isHandler)

theorem Kept.watch (kept : Kept state) (isReaper : state.reaper = some index)
    (found : state.threads[index]? = some own)
    (reaps : ∀ thread, own.place.reaps = some thread → place.reaps = some thread ∨
      (state.Has thread fun target => target.dynamic = true → thread ∈ state.released))
    (watches : Watches state index place) : Watch (state.move index place) := by
  have before : ∀ {other : Nat} {after : RtosThread}, (state.move index place).threads[other]? = some after →
      ∃ thread, state.threads[other]? = some thread ∧ ∃ where_, after = { thread with place := where_ } := by
    intro other after isAfter
    rcases getElem?_change isAfter with ⟨thread, isThread, rfl, rfl⟩ | ⟨_, isThread⟩
    · exact ⟨thread, isThread, place, rfl⟩
    · exact ⟨after, isThread, after.place, rfl⟩
  refine ⟨⟨fun other after isAfter left => ?_, fun other after isAfter ended left => ?_,
    fun none_ => (nomatch none_.symm.trans isReaper), kept.handler⟩, fun reaper isSame => ?_⟩
  · obtain ⟨thread, isThread, _, rfl⟩ := before isAfter
    exact kept.gone other thread isThread left
  · obtain ⟨thread, isThread, _, rfl⟩ := before isAfter
    rcases kept.taken other thread isThread ended left with member | ⟨reaper, isSame, has⟩ | free
    · exact Or.inl member
    · obtain rfl := Option.some_inj.mp (isReaper.symm.trans isSame)
      rcases reaps other (has.of_found found) with still | done
      · exact Or.inr (Or.inl ⟨index, isReaper, _, getElem?_change_self found, still⟩)
      · exact Or.inr (Or.inr fun isDynamic => done.of_found isThread isDynamic)
    · exact Or.inr (Or.inr free)
  · obtain rfl := Option.some_inj.mp (isReaper.symm.trans isSame)
    refine ⟨_, getElem?_change_self found, watches.congr id fun pending => ?_⟩
    refine pending.imp id fun nothing other after isAfter registered => ?_
    obtain ⟨thread, isThread, _, rfl⟩ := before isAfter
    exact nothing other thread isThread registered

theorem clean_told (state : ThreadsState) (reaper : Nat) :
    (state.setFlags (.flags reaper) rtosReaperClean).words (.flags reaper) someFlags.flags &&&
      rtosReaperClean ≠ 0 := by
  change Function.update state.words (.flags reaper) _ (.flags reaper) someFlags.flags &&& _ ≠ 0
  rw [Function.update_self, Function.update_self, BitVec.or_comm]
  exact wish_or_ne_zero (by decide)

theorem Watch.endTask (life : Life state) (watch : Watch state)
    (found : state.threads[index]? = some own) (live : own.state ≠ .terminated) {wakeStatus : Result}
    (wakes : wakeStatus.negative = false)
    (ensured : own.joinable = true ∨ state.reaper.isSome = true) :
    Watch (state.endTask index own wakeStatus) := by
  have isOwn : ∀ thread, state.threads[index]? = some thread → thread = own := fun thread isThread =>
    Option.some_inj.mp (isThread.symm.trans found)
  have noAbort : ∀ middle : ThreadsState, ∀ object flags,
      middle.setOrAbort object flags wakeStatus = middle.setFlags object flags := by
    intro middle object flags
    rw [setOrAbort, if_neg]
    rintro ⟨_, negative⟩
    cases negative.symm.trans wakes
  rw [ThreadsState.endTask]
  split
  · rename_i joinable
    rw [noAbort]
    refine Watch.setFlags (watch.change fun thread isThread => ?_) _
    obtain rfl := isOwn thread isThread
    refine ⟨fun _ => rfl, rfl, fun _ => rfl, fun ended => ?_, rfl, Or.inl⟩
    change (!thread.joinable) = true at ended
    rw [joinable] at ended
    cases ended
  · rename_i detached
    obtain ⟨reaper, isReaper⟩ := Option.isSome_iff_exists.mp (ensured.resolve_left detached)
    have isValid : ((state.change index RtosThread.endTask).change index
        RtosThread.markReap).threads[reaper]?.any RtosThread.valid = true := by
      obtain ⟨thread, isThread, fits⟩ := life.reaper reaper isReaper
      by_cases isIt : reaper = index
      · subst isIt
        rw [getElem?_change_self (getElem?_change_self isThread)]
        exact fits.2.1
      · rw [getElem?_change_ne isIt, getElem?_change_ne isIt, isThread]
        exact fits.2.1
    have both : (state.change index RtosThread.endTask).change index RtosThread.markReap =
        state.change index (RtosThread.markReap ∘ RtosThread.endTask) := by
      simp only [ThreadsState.change, List.modify_modify_eq]
    simp only [kickReaper]
    rw [show ((state.change index RtosThread.endTask).change index RtosThread.markReap).reaper =
      some reaper from isReaper]
    simp only [isValid, if_true]
    rw [noAbort, both]
    have told := @Watch.setFlags state (.flags reaper) watch rtosReaperClean
    refine told.change fun thread isThread => ?_
    obtain rfl := isOwn thread isThread
    refine ⟨fun _ => rfl, rfl, fun _ => rfl, fun _ => Or.inr ?_, dynamic_markReap _,
      fun _ => Or.inr ⟨reaper, isReaper, clean_told state reaper⟩⟩
    rw [← Bool.not_eq_false]
    intro left
    exact live (watch.gone index thread isThread left)

theorem Watch.append (watch : Watch state) {fresh : RtosThread}
    (registered : fresh.registered = true) (unmarked : fresh.marked = false)
    (notEnded : fresh.endedDetached = false) (threads : next.threads = state.threads ++ [fresh])
    (words : next.words = state.words) (reapList : next.reapList = state.reapList)
    (released : next.released = state.released) (handler : next.aborted = state.aborted)
    (reaper : next.reaper = state.reaper ∨ state.reaper = none ∧
      next.reaper = some state.threads.length ∧ fresh.place = reaperWait state.threads.length) :
    Watch next := by
  have before : ∀ {other : Nat} {after : RtosThread}, next.threads[other]? = some after →
      after = fresh ∨ state.threads[other]? = some after := by
    intro other after isAfter
    rw [threads] at isAfter
    rcases Nat.lt_or_ge other state.threads.length with isOld | atLeast
    · rw [List.getElem?_append_left isOld] at isAfter
      exact Or.inr isAfter
    · obtain rfl := List.mem_singleton.mp (List.mem_of_getElem?
        ((List.getElem?_append_right atLeast).symm.trans isAfter))
      exact Or.inl rfl
  have keeps : ∀ {reaper : Nat} {property : RtosThread → Prop}, state.Has reaper property →
      next.Has reaper property := by
    rintro reaper property ⟨thread, found, holds⟩
    refine ⟨thread, ?_, holds⟩
    rw [threads, List.getElem?_append_left (List.getElem?_eq_some_iff.mp found).1]
    exact found
  refine ⟨⟨fun other after isAfter left => ?_, fun other after isAfter ended left => ?_,
    fun none_ => ?_, ?_⟩, fun other isReaper => ?_⟩
  · rcases before isAfter with rfl | isThread
    · cases registered.symm.trans left
    · exact watch.gone other after isThread left
  · rcases before isAfter with rfl | isThread
    · cases registered.symm.trans left
    · rw [reapList, released]
      rcases watch.taken other after isThread ended left with member | ⟨former, isFormer, has⟩ | free
      · exact Or.inl member
      · refine Or.inr (Or.inl ⟨former, ?_, keeps has⟩)
        rcases reaper with same | ⟨none_, _⟩
        · exact same.trans isFormer
        · cases none_.symm.trans isFormer
      · exact Or.inr (Or.inr free)
  · have wasNone : state.reaper = none := by
      rcases reaper with same | ⟨_, some_, _⟩
      · exact same.symm.trans none_
      · cases none_.symm.trans some_
    refine ⟨reapList.trans (watch.idle wasNone).1, fun other after isAfter => ?_⟩
    rcases before isAfter with rfl | isThread
    · exact unmarked
    · exact (watch.idle wasNone).2 other after isThread
  · rw [handler]
    exact watch.handler
  · rcases reaper with same | ⟨none_, some_, isPlace⟩
    · refine keeps ((watch.reaper other (same.symm.trans isReaper)).imp fun own watches =>
        watches.congr reapList.trans fun pending => ?_)
      rw [Pending, words]
      refine pending.imp id fun nothing index after isAfter isRegistered => ?_
      rcases before isAfter with rfl | isThread
      · exact unmarked
      · exact nothing index after isThread isRegistered
    · obtain rfl := Option.some_inj.mp (some_.symm.trans isReaper)
      refine ⟨fresh, ?_, ?_⟩
      · rw [threads, List.getElem?_concat_length]
      · change Watches next _ fresh.place
        rw [isPlace]
        refine ⟨reapList.trans (watch.idle none_).1, Or.inr fun index after isAfter _ => ?_⟩
        rcases before isAfter with rfl | isThread
        · exact unmarked
        · exact (watch.idle none_).2 index after isThread

theorem Watch.ensureReaper (watch : Watch state) : Watch state.ensureReaper := by
  rw [ThreadsState.ensureReaper]
  split
  · exact watch
  · rename_i none_
    have unmarked : (RtosThread.new osDynamicAlloc).marked = false := by decide
    exact @Watch.append _ _ watch
      { RtosThread.new osDynamicAlloc with place := reaperWait state.threads.length } rfl unmarked rfl rfl
      rfl rfl rfl rfl (Or.inr ⟨none_, rfl, rfl⟩)

theorem Watch.ensureFor (watch : Watch state) (thread : RtosThread) :
    Watch (ensureFor thread state) := by
  rw [PicoToolkit.ensureFor]
  split
  · exact watch
  · exact watch.ensureReaper

theorem Watch.unregister (watch : Watch state) {thread : Nat}
    (joinable : state.Has thread EndedJoinable) : Watch (state.unregister thread) := by
  have before : ∀ {other : Nat} {after : RtosThread},
      (state.unregister thread).threads[other]? = some after →
      ∃ own, state.threads[other]? = some own ∧
        (other = thread ∧ after = own.unregister ∨ other ≠ thread ∧ after = own) := by
    intro other after isAfter
    rcases getElem?_change isAfter with ⟨own, isThread, rfl, rfl⟩ | ⟨different, isThread⟩
    · exact ⟨own, isThread, Or.inl ⟨rfl, rfl⟩⟩
    · exact ⟨after, isThread, Or.inr ⟨different, rfl⟩⟩
  have keeps : ∀ {reaper : Nat} (property : ThreadPlace → Prop),
      (state.Has reaper fun own => property own.place) →
      (state.unregister thread).Has reaper fun own => property own.place := by
    intro reaper property has
    exact has_change has (fun _ _ _ holds => holds) fun _ _ _ holds => holds
  refine ⟨⟨fun other after isAfter left => ?_, fun other after isAfter ended left => ?_,
    fun none_ => ⟨?_, fun other after isAfter => ?_⟩, watch.handler⟩, fun reaper isReaper => ?_⟩
  · obtain ⟨own, isThread, ⟨rfl, rfl⟩ | ⟨_, rfl⟩⟩ := before isAfter
    · exact (joinable.of_found isThread).1
    · exact watch.gone other after isThread left
  · obtain ⟨own, isThread, ⟨rfl, rfl⟩ | ⟨different, rfl⟩⟩ := before isAfter
    · cases (joinable.of_found isThread).2.symm.trans ended
    · rcases watch.taken other after isThread ended left with member | ⟨reaper, isReaper, has⟩ | free
      · exact Or.inl (List.mem_filter.mpr ⟨member, decide_eq_true different⟩)
      · exact Or.inr (Or.inl ⟨reaper, isReaper, keeps (·.reaps = some other) has⟩)
      · exact Or.inr (Or.inr free)
  · change state.reapList.filter _ = []
    rw [(watch.idle none_).1]
    rfl
  · obtain ⟨own, isThread, ⟨rfl, rfl⟩ | ⟨_, rfl⟩⟩ := before isAfter
    · exact (watch.idle none_).2 other own isThread
    · exact (watch.idle none_).2 other after isThread
  · refine keeps (Watches _ reaper) ((watch.reaper reaper isReaper).imp fun own watches =>
      watches.congr (fun empty => ?_) fun pending => ?_)
    · change state.reapList.filter _ = []
      rw [empty]
      rfl
    · refine pending.imp id fun nothing other after isAfter registered => ?_
      obtain ⟨own, isThread, ⟨rfl, rfl⟩ | ⟨_, rfl⟩⟩ := before isAfter
      · cases registered
      · exact nothing other after isThread registered

theorem Watch.reclaim (watch : Watch state) (thread : Nat) (byReaper : Bool) :
    Watch (state.reclaim index thread byReaper) := by
  have changed : Watch (state.change thread RtosThread.clearMarker) :=
    watch.change fun _ _ => ⟨fun _ => rfl, rfl, id, Or.inl, rfl, Or.inl⟩
  refine changed.congr rfl rfl rfl (fun other member => ?_) (fun _ _ => id) watch.handler
  change other ∈ if _ then _ else _
  split
  · exact List.mem_append_left _ member
  · exact member

theorem released_reclaim (thread : Nat) (byReaper : Bool) (has : state.Has thread fun _ => True) :
    (state.reclaim index thread byReaper).Has thread fun target =>
      target.dynamic = true → thread ∈ (state.reclaim index thread byReaper).released := by
  obtain ⟨target, found, _⟩ := has
  refine ⟨target.clearMarker, getElem?_change_self found, fun isDynamic => ?_⟩
  have isThere : (state.threads[thread]?.any fun thread =>
      decide (thread.attrBits &&& osDynamicAlloc ≠ 0)) = true := by
    rw [found]
    exact isDynamic
  change thread ∈ if _ then _ else _
  rw [if_pos isThere]
  exact List.mem_append_right _ (List.mem_singleton.mpr rfl)

theorem Watch.reaperDone (watch : Watch state) (isReaper : state.reaper = some index)
    (found : state.threads[index]? = some own) (reaps : own.place.reaps = none)
    (empty : state.reapList = []) {flags : Word}
    (done : flags &&& rtosReaperExit ≠ 0 ∨ state.reapable = []) :
    Watch (reaperDone flags index state) := by
  rw [PicoToolkit.reaperDone]
  split
  · exact watch.abort fun same => by cases same
  · rename_i noExit
    have nothing := done.resolve_left noExit
    refine watch.toKept.watch isReaper found (fun thread isReaped => ?_) ⟨empty, Or.inr ?_⟩
    · cases reaps.symm.trans isReaped
    · intro other thread isThread registered
      rw [← Bool.not_eq_true]
      intro marked
      have member : other ∈ state.reapable := by
        refine List.mem_filter.mpr ⟨List.mem_range.mpr (List.getElem?_eq_some_iff.mp isThread).1, ?_⟩
        rw [isThread, Option.any_some, reapable_eq, registered, marked]
        rfl
      rw [nothing] at member
      cases member

theorem Kept.collect (life : Life state) (kept : Kept state) (empty : state.reapList = [])
    (idle : ∀ reaper, state.reaper = some reaper → state.Has reaper fun own => own.place.reaps = none)
    (isSome : state.reaper.isSome = true) : Kept state.collect := by
  have before : ∀ {other : Nat} {after : RtosThread}, state.collect.threads[other]? = some after →
      ∃ thread, state.threads[other]? = some thread ∧
        (thread.reapable = true ∧ after = thread.unregister ∨ after = thread) := by
    intro other after isAfter
    rw [ThreadsState.collect, List.getElem?_map] at isAfter
    obtain ⟨thread, isThread, rfl⟩ := Option.map_eq_some_iff.mp isAfter
    refine ⟨thread, isThread, ?_⟩
    split
    · exact Or.inl ⟨‹_›, rfl⟩
    · exact Or.inr rfl
  refine ⟨fun other after isAfter left => ?_, fun other after isAfter ended left => ?_,
    fun none_ => ?_, kept.handler⟩
  · obtain ⟨thread, isThread, ⟨reapable, rfl⟩ | rfl⟩ := before isAfter
    · rw [reapable_eq, Bool.and_eq_true] at reapable
      exact ((life.threads other thread isThread).marked reapable.2).1
    · exact kept.gone other after isThread left
  · obtain ⟨thread, isThread, ⟨reapable, rfl⟩ | rfl⟩ := before isAfter
    · refine Or.inl (List.mem_filter.mpr
        ⟨List.mem_range.mpr (List.getElem?_eq_some_iff.mp isThread).1, ?_⟩)
      rw [isThread]
      exact reapable
    · rcases kept.taken other after isThread ended left with member | ⟨reaper, isReaper, has⟩ | free
      · rw [empty] at member
        cases member
      · obtain ⟨own, found, reaps⟩ := has
        cases reaps.symm.trans ((idle reaper isReaper).of_found found)
      · exact Or.inr (Or.inr free)
  · change state.reaper = none at none_
    rw [none_] at isSome
    cases isSome

theorem words_setWaiters (state : ThreadsState) (object other : EventObject) (value : Word) :
    (state.setWord object someFlags.waiters value).words other someFlags.flags =
      state.words other someFlags.flags := by
  change Function.update state.words object _ other someFlags.flags = _
  by_cases isIt : other = object
  · rw [isIt, Function.update_self, Function.update_of_ne someFlags.apart]
  · rw [Function.update_of_ne isIt]

theorem Watch.reaperWait (watch : Watch state) (isReaper : state.reaper = some index)
    (found : state.threads[index]? = some own) {place : WaitPlace reaperWish}
    (isPlace : own.place = .wait (.flags index) reaperWish osWaitForever (.inl place) .reap)
    {answer : Result}
    (moved : waitStep index (.flags index) reaperWish osWaitForever .reap place answer state =
      some next) : Watch next := by
  have watches := (watch.reaper index isReaper).of_found found
  rw [isPlace] at watches
  have goes : ∀ (written : ThreadsState) goal, Kept written → written.reaper = some index →
      written.threads = state.threads →
      Watches written index (.wait (.flags index) reaperWish osWaitForever goal .reap) →
      Watch (written.move index (.wait (.flags index) reaperWish osWaitForever goal .reap)) := by
    intro written goal kept same threads goalWatches
    refine kept.watch same (threads ▸ found) (fun thread isReaped => ?_) goalWatches
    rw [isPlace] at isReaped
    cases isReaped
  have kept : ∀ object address value, Kept (state.setWord object address value) :=
    fun _ _ _ => ⟨watch.gone, watch.taken, watch.idle, watch.handler⟩
  cases place with
  | enter =>
      obtain rfl := Option.some_inj.mp moved
      refine goes _ _ (kept _ _ _) isReaper rfl ⟨watches.1, watches.2.imp (fun told => ?_) id⟩
      rw [words_setWaiters]
      exact told
  | load =>
      obtain rfl := Option.some_inj.mp moved
      change Watch ((state.setWord (.flags index) someFlags.flags
        (state.words (.flags index) someFlags.flags)).move index _)
      rw [setWord_self]
      refine goes _ _ watch.toKept isReaper rfl ?_
      split
      · exact watches.1
      · split
        · exact watches.1
        · split
          · exact watches.1
          · exact watches
  | leave exit =>
      obtain rfl := Option.some_inj.mp moved
      refine goes _ _ (kept _ _ _) isReaper rfl ?_
      cases exit with
      | _ => exact watches
  | consume =>
      obtain rfl := Option.some_inj.mp moved
      exact goes _ _ (kept _ _ _) isReaper rfl watches
  | wait expected =>
      obtain rfl := Option.some_inj.mp moved
      refine goes _ _ watch.toKept isReaper rfl ?_
      beta_reduce
      split
      · split
        · exact watches.1
        · exact watches.1
      · exact watches

theorem Watch.recordDelete (watch : Watch state) (object : EventObject) (cleans : Bool) :
    Watch (state.recordDelete object cleans) :=
  watch.congr rfl rfl rfl (fun _ => id) (fun _ _ => id) watch.handler

theorem Watch.freeMutexes (watch : Watch state) (thread : Nat) : Watch (state.freeMutexes thread) :=
  watch.congr rfl rfl rfl (fun _ => id) (fun _ _ => id) watch.handler

theorem Watch.pop (watch : Watch state) (isReaper : state.reaper = some index)
    (found : state.threads[index]? = some own) (reaps : own.place.reaps = none) {flags : Word}
    {thread : Nat} {rest : List Nat} (isList : state.reapList = thread :: rest) :
    Watch ({ state with reapList := rest }.move index (.clean thread .mutexes (.reaper flags))) := by
  have cleans : Watch (state.move index (.clean thread .mutexes (.reaper flags))) := by
    refine watch.toKept.watch isReaper found (fun other isReaped => ?_) trivial
    cases reaps.symm.trans isReaped
  refine ⟨⟨cleans.gone, fun other after isAfter ended left => ?_, fun none_ => ?_,
    cleans.handler⟩, fun reaper isSame => ?_⟩
  · rcases cleans.taken other after isAfter ended left with member | rest_
    · change other ∈ state.reapList at member
      rw [isList] at member
      rcases List.mem_cons.mp member with rfl | member
      · exact Or.inr (Or.inl ⟨index, isReaper, _, getElem?_change_self found, rfl⟩)
      · exact Or.inl member
    · exact Or.inr rest_
  · cases isReaper.symm.trans none_
  · obtain rfl := Option.some_inj.mp (isReaper.symm.trans isSame)
    exact ⟨_, getElem?_change_self found, trivial⟩

section ReaperClean

variable {thread : Nat} {flags : Word}

theorem Watch.reaperDelete (watch : Watch state) (isReaper : state.reaper = some index)
    (found : state.threads[index]? = some own)
    (reaps : ∀ other, own.place.reaps = some other → other = thread) (object : EventObject)
    (part : CleanPart) : Watch (cleanDelete index thread object part (.reaper flags) state) := by
  have recorded := watch.recordDelete object true
  unfold cleanDelete
  split
  · refine recorded.toKept.watch isReaper found (fun other isReaped => Or.inl ?_) trivial
    rw [reaps other isReaped]
    rfl
  · exact recorded.abort fun same => by cases same

theorem Watch.reaperMutexes (watch : Watch state) (isReaper : state.reaper = some index)
    (found : state.threads[index]? = some own)
    (reaps : ∀ other, own.place.reaps = some other → other = thread) (answer : Result) :
    Watch (cleanMutexes index thread (.reaper flags) answer state) := by
  unfold cleanMutexes
  split
  · split
    · exact watch.abort fun same => by cases same
    · refine (watch.freeMutexes thread).toKept.watch isReaper found
        (fun other isReaped => Or.inl ?_) trivial
      rw [reaps other isReaped]
      rfl
  · exact watch.abort fun same => by cases same

theorem Watch.reaperReclaim (watch : Watch state) (isReaper : state.reaper = some index)
    (found : state.threads[index]? = some own)
    (reaps : ∀ other, own.place.reaps = some other → other = thread)
    (has : state.Has thread fun _ => True) (fits : ∀ state, Watches state index place) :
    Watch ((state.reclaim index thread true).move index place) := by
  have wasThere : state.Has index fun before => before.place = own.place := ⟨own, found, rfl⟩
  have isThere : (state.reclaim index thread true).Has index fun after => after.place = own.place :=
    has_change wasThere (fun _ _ _ same => same) fun _ _ _ same => same
  obtain ⟨after, isAfter, samePlace⟩ := isThere
  refine (watch.reclaim thread true).toKept.watch isReaper isAfter
    (fun other isReaped => Or.inr ?_) (fits _)
  rw [samePlace] at isReaped
  obtain rfl := reaps other isReaped
  exact released_reclaim _ true has

theorem Watch.reaperClean (watch : Watch state) (isReaper : state.reaper = some index)
    (found : state.threads[index]? = some own) {part : CleanPart}
    (isPlace : own.place = .clean thread part (.reaper flags)) (has : state.Has thread fun _ => True)
    (answer : Result) : Watch (cleanStep index thread part (.reaper flags) answer state) := by
  have reaps : ∀ other, own.place.reaps = some other → other = thread := by
    intro other isReaped
    rw [isPlace] at isReaped
    exact (Option.some_inj.mp isReaped).symm
  cases part with
  | mutexes => exact watch.reaperMutexes isReaper found reaps answer
  | joiner => exact watch.reaperDelete isReaper found reaps _ _
  | flags => exact watch.reaperDelete isReaper found reaps _ _
  | clear => exact watch.reaperReclaim isReaper found reaps has fun _ => trivial

end ReaperClean

theorem Watch.reaperStep (life : Life state) (loops : Loops false state) (watch : Watch state)
    (isReaper : state.reaper = some index) (found : state.threads[index]? = some own) {answer : Result}
    (moved : threadStep index answer own state = some next) : Watch next := by
  have inLoop := (loops index isReaper).2.of_found found
  have watches := (watch.reaper index isReaper).of_found found
  have may := (life.threads index own found).place
  cases threadMoves moved with
  | wait isPlace moved =>
      rw [isPlace] at inLoop
      obtain ⟨rfl, rfl, rfl, rfl, waits⟩ := inLoop
      exact watch.reaperWait isReaper found isPlace moved
  | exit isPlace =>
      rw [isPlace] at inLoop
      exact inLoop.2.2.2.2.elim
  | @afterWait object wish timeout value after isPlace =>
      have reaps : own.place.reaps = none := by
        rw [isPlace]
        rfl
      rw [isPlace] at inLoop watches
      obtain ⟨rfl, rfl, rfl, rfl, waits⟩ := inLoop
      rw [afterWait]
      split
      · exact watch.abort fun same => by cases same
      · rename_i ok
        split
        · refine watch.toKept.watch isReaper found (fun thread isReaped => ?_) watches
          cases reaps.symm.trans isReaped
        · rename_i notClean
          refine watch.reaperDone isReaper found reaps watches (Or.inl fun noExit => ?_)
          rcases waits with ⟨isError, _⟩ | ⟨_, isSet⟩
          · exact ok isError
          · refine isSet ?_
            change value &&& (rtosReaperExit ||| rtosReaperClean) = 0
            rw [BitVec.and_or_distrib_left, noExit, not_not.mp notClean]
            rfl
  | invalid _ _ => exact watch.abort fun same => by cases same
  | reaped isPlace nothing =>
      have reaps : own.place.reaps = none := by
        rw [isPlace]
        rfl
      rw [isPlace] at watches
      exact watch.reaperDone isReaper found reaps watches (Or.inr nothing)
  | collect isPlace _ =>
      have reaps : own.place.reaps = none := by
        rw [isPlace]
        rfl
      rw [isPlace] at watches
      have collected : Kept state.collect := by
        refine watch.toKept.collect life watches (fun reaper isSame => ?_) ?_
        · obtain rfl := Option.some_inj.mp (isReaper.symm.trans isSame)
          exact ⟨own, found, reaps⟩
        · rw [isReaper]
          rfl
      have isThere : state.collect.threads[index]? =
          some (if own.reapable then own.unregister else own) := by
        rw [ThreadsState.collect, List.getElem?_map, found]
        rfl
      refine collected.watch isReaper isThere (fun thread isReaped => ?_) trivial
      split at isReaped
      · cases reaps.symm.trans isReaped
      · cases reaps.symm.trans isReaped
  | popped isPlace empty =>
      refine watch.toKept.watch isReaper found (fun thread isReaped => ?_) empty
      rw [isPlace] at isReaped
      cases isReaped
  | pop isPlace isList =>
      refine watch.pop isReaper found ?_ isList
      rw [isPlace]
      rfl
  | @clean thread part cleaner isPlace =>
      rw [isPlace] at inLoop may
      cases cleaner with
      | joiner => exact inLoop.elim
      | reaper flags =>
          exact watch.reaperClean isReaper found isPlace (may.2.imp fun _ _ => trivial) answer
  | delete isPlace | remove isPlace | terminated isPlace _ _ | terminate isPlace _ _ | ended isPlace
  | detach isPlace | detached isPlace _ _ | mark isPlace _ _ _ | kick isPlace _ _ _ =>
      rw [isPlace] at inLoop
      exact inLoop.elim

theorem Watch.otherWait (watch : Watch state) (other : state.reaper ≠ some index)
    (notFlags : ∀ reaper, state.reaper = some reaper → object ≠ .flags reaper) {wish : FlagsWish}
    {timeout : Word} {after : AfterWait} {place : WaitPlace wish} {answer : Result}
    (moved : waitStep index object wish timeout after place answer state = some next) : Watch next := by
  have writes : ∀ address value goal,
      Watch ((state.setWord object address value).move index goal) := by
    intro address value goal
    have written : Watch (state.setWord object address value) :=
      watch.setWord fun reaper isReaper isFlags => (notFlags reaper isReaper isFlags).elim
    exact written.move other
  cases place with
  | wait expected =>
      obtain rfl := Option.some_inj.mp moved
      exact watch.move other
  | _ =>
      obtain rfl := Option.some_inj.mp moved
      exact writes _ _ _

theorem Watch.joinerClean (watch : Watch state) (other : state.reaper ≠ some index) (thread : Nat)
    (part : CleanPart) (answer : Result) :
    Watch (cleanStep index thread part .joiner answer state) := by
  have deletes : ∀ object part, Watch (cleanDelete index thread object part .joiner state) := by
    intro object part
    have recorded := watch.recordDelete object true
    unfold cleanDelete
    split
    · exact recorded.move other
    · exact recorded.move other
  cases part with
  | mutexes =>
      rw [cleanStep, cleanMutexes]
      split
      · split
        · exact watch.move other
        · exact (watch.freeMutexes thread).move other
      · exact watch.abort fun same => by cases same
  | joiner => exact deletes _ _
  | flags => exact deletes _ _
  | clear => exact (watch.reclaim thread false).move other

theorem Watch.otherStep (life : Life state) (loops : Loops false state) (watch : Watch state)
    (other : state.reaper ≠ some index) (found : state.threads[index]? = some own) {answer : Result}
    (wakes : own.place.terminates.isSome = true → answer.negative = false)
    (moved : threadStep index answer own state = some next) : Watch next := by
  have may := (life.threads index own found).place
  cases threadMoves moved with
  | @wait object wish timeout place after _ isPlace moved =>
      rw [isPlace] at may
      have notFlags : ∀ reaper, state.reaper = some reaper → object ≠ .flags reaper := by
        intro reaper isReaper isFlags
        rw [may.1 reaper isFlags] at isReaper
        exact other isReaper
      exact watch.otherWait other notFlags moved
  | exit isPlace =>
      rw [osThreadExit]
      split
      · have ensured := loops.ensureFor life own
        refine (watch.ensureFor own).move (ensured.notReaper (getElem?_ensureFor found) ?_)
        intro flags inLoop
        rw [isPlace] at inLoop
        exact inLoop.2.2.2.2
      · exact watch.abort fun same => by cases same
  | @afterWait _ _ _ _ after isPlace =>
      rw [isPlace] at may
      cases after with
      | leave => exact watch.move other
      | join thread => exact watch.move other
      | reap => exact (other may.2.1).elim
  | @delete object _ => exact (watch.recordDelete object false).move other
  | remove isPlace =>
      rw [isPlace] at may
      exact (watch.unregister may).move other
  | @clean thread part cleaner isPlace =>
      rw [isPlace] at may
      cases cleaner with
      | reaper flags => exact (other may.1).elim
      | joiner => exact watch.joinerClean other thread part answer
  | terminated _ _ _ | ended _ | detached _ _ _ => exact watch.move other
  | terminate isPlace isTarget live =>
      rw [isPlace] at may
      have safe : answer.negative = false := wakes (by rw [isPlace]; rfl)
      have ends := watch.endTask life isTarget live safe (may.of_found isTarget)
      refine ends.move ?_
      rw [reaper_endTask]
      exact other
  | @detach thread _ =>
      have changed : Watch (state.change thread RtosThread.detach) := by
        refine watch.change fun target _ => ⟨fun _ => rfl, rfl, id, Or.inl, dynamic_detach target, ?_⟩
        rw [marked_detach]
        exact Or.inl
      exact changed.move other
  | mark isPlace _ _ none_ =>
      rw [isPlace] at may
      obtain ⟨reaper, isReaper⟩ := Option.isSome_iff_exists.mp may.1
      cases isReaper.symm.trans none_
  | @kick thread _ reaper _ _ _ isReaper =>
      have told := @Watch.setFlags state (.flags reaper) watch rtosReaperClean
      have marked : Watch ((state.setFlags (.flags reaper) rtosReaperClean).change thread
          RtosThread.markReap) :=
        told.change fun target _ => ⟨fun _ => rfl, rfl, id, Or.inl, dynamic_markReap target,
          fun _ => Or.inr ⟨reaper, isReaper, clean_told state reaper⟩⟩
      exact marked.move other
  | invalid isPlace _ | reaped isPlace _ | collect isPlace _ =>
      rw [isPlace] at may
      exact (other may).elim
  | popped isPlace _ | pop isPlace _ =>
      rw [isPlace] at may
      exact (other may).elim

theorem Watch.beginRequest (life : Life state) (loops : Loops false state) (watch : Watch state)
    (found : state.threads[index]? = some own) (isOutside : own.place = .outside)
    (request : ThreadRequest) : Watch (beginRequest index own state request) := by
  have elsewhere : ∀ flags, ¬ InLoop false flags index own.place := by
    intro flags inLoop
    rw [isOutside] at inLoop
    exact inLoop
  have other := loops.notReaper found elsewhere
  have ensured : ∀ (thread : RtosThread) place,
      Watch ((PicoToolkit.ensureFor thread state).move index place) := by
    intro thread place
    exact (watch.ensureFor thread).move ((loops.ensureFor life thread).notReaper
      (getElem?_ensureFor found) elsewhere)
  cases request with
  | osEventFlagsWait address wish timeout => exact watch.move other
  | osEventFlagsDelete address => exact watch.move other
  | osThreadFlagsWait wish timeout =>
      rw [PicoToolkit.beginRequest]
      split
      · exact watch.move other
      · exact watch
  | osThreadFlagsClear flags =>
      rw [PicoToolkit.beginRequest]
      split
      · refine watch.setWord ?_
        rintro reaper isReaper ⟨⟩
        exact (other isReaper).elim
      · exact watch
  | osThreadJoin thread =>
      rw [PicoToolkit.beginRequest]
      split
      · exact watch.move other
      · exact watch
  | osThreadDetach thread =>
      rw [PicoToolkit.beginRequest]
      split
      · exact watch.ensureReaper.move ((loops.ensureReaper life).notReaper
          (getElem?_ensureReaper found) elsewhere)
      · exact watch
  | osThreadTerminate thread =>
      rw [PicoToolkit.beginRequest]
      split
      · exact watch
      · rename_i target _
        split
        · exact ensured target _
        · exact watch
  | osThreadExit =>
      rw [PicoToolkit.beginRequest, osThreadExit]
      split
      · exact ensured own _
      · exact watch.abort fun same => by cases same

theorem Watch.step (life : Life state) (loops : Loops false state) (watch : Watch state)
    {action : ThreadAction} (guarded : ReapingStep state action)
    (moved : state.step action = some next) : Watch next := by
  cases threadSteps moved with
  | osThreadNew attrBits =>
      have unmarked : (RtosThread.new attrBits).marked = false :=
        decide_eq_false (not_not.mpr guarded.unmarked)
      exact watch.append rfl unmarked rfl rfl rfl rfl rfl rfl (Or.inl rfl)
  | request request found isOutside _ => exact watch.beginRequest life loops found isOutside request
  | @advance index _ _ _ found _ isNext =>
      by_cases isReaper : state.reaper = some index
      · exact watch.reaperStep life loops isReaper found isNext
      · refine watch.otherStep life loops isReaper found (fun terminates => guarded.ends ?_) isNext
        rw [found]
        exact terminates
  | schedule found live _ =>
      refine watch.change fun thread isThread => ?_
      obtain rfl := Option.some_inj.mp (found.symm.trans isThread)
      exact ⟨fun _ => rfl, rfl, fun ended => (live ended).elim, Or.inl, rfl, Or.inl⟩
  | evict _ found live =>
      obtain ⟨wakes, ensured⟩ := guarded.ends
      refine watch.endTask life found live wakes ?_
      rw [found] at ensured
      exact ensured.symm
  | osEventFlagsSet _ | osThreadFlagsSet _ _ => exact watch.setFlags _
  | osEventFlagsClear _ => exact watch.setWord fun _ _ same => by cases same
  | robustMutexes _ => exact watch.congr rfl rfl rfl (fun _ => id) (fun _ _ => id) watch.handler

theorem Watch.initial (begins : threadsSystem.initial state) : Watch state := by
  obtain ⟨⟨attrBits, unmarked, threads⟩, _, reaper, reapList, aborted, _⟩ := begins
  have isNew : ∀ (index : Nat) (thread : RtosThread), state.threads[index]? = some thread →
      thread = RtosThread.new attrBits := by
    intro index thread found
    rw [threads] at found
    exact List.mem_singleton.mp (List.mem_of_getElem? found)
  refine ⟨⟨fun index thread found left => ?_, fun index thread found ended => ?_, fun _ =>
    ⟨reapList, fun index thread found => ?_⟩, ?_⟩, fun index isReaper => ?_⟩
  · rw [isNew index thread found] at left
    cases left
  · rw [isNew index thread found] at ended
    cases ended
  · rw [isNew index thread found]
    exact decide_eq_false (not_not.mpr unmarked)
  · rw [aborted]
    nofun
  · cases reaper.symm.trans isReaper

end Watch

section Runs

instance (state : ThreadsState) : (action : ThreadAction) → Decidable (EndsSafely state action)
  | .evict index wakeStatus => inferInstanceAs (Decidable (wakeStatus.negative = false ∧
      (state.reaper.isSome = true ∨ state.threads[index]?.all RtosThread.joinable = true)))
  | .advance index answer => inferInstanceAs (Decidable
      ((state.threads[index]?.bind fun own => own.place.terminates).isSome = true →
        answer.negative = false))
  | .osThreadNew _ | .request _ _ | .schedule _ _ | .osEventFlagsSet _ _ | .osEventFlagsClear _ _
  | .osThreadFlagsSet _ _ | .robustMutexes _ => isTrue trivial

instance (state : ThreadsState) (action : ThreadAction) : Decidable (ReapingStep state action) :=
  decidable_of_iff (NewUnmarked action ∧ EndsSafely state action)
    ⟨fun ⟨unmarked, ends⟩ => ⟨unmarked, ends⟩, fun reaping => ⟨reaping.unmarked, reaping.ends⟩⟩

def reapingRun : List ThreadAction :=
  [ThreadAction.osThreadNew osDynamicAlloc, .osThreadNew osDynamicAlloc, .request 1 .osThreadExit] ++
    advances 1 1 ++ [ThreadAction.evict 2 (.value 0)] ++ advances 20 3

end Runs

end PicoToolkit
