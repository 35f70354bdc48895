import PicoToolkit.Cmsis.ThreadLife

/-!
The loop of the reaper: it is only left to abort the program.  In calm runs, where nobody tells the reaper
to exit and its own waits do not fail, it is never left.
-/

namespace PicoToolkit

open Transition Interleaving ThreadsState RtosThread

def forbidden (calm : Bool) : Word := if calm then osFlagsError ||| rtosReaperExit else osFlagsError

def LoopWait (calm : Bool) (flags : Word) {wish : FlagsWish} : WaitPlace wish ⊕ Option Word → Prop
  | .inl (.leave .consume) | .inl .consume => flags &&& reaperWish.flags ≠ 0
  | .inl (.leave .timeout) | .inl (.leave .error) => calm = false
  | .inl (.leave _) | .inr none => False
  | .inl _ => True
  | .inr (some value) => value &&& osFlagsError ≠ 0 ∧ calm = false ∨
      value &&& forbidden calm = 0 ∧ value &&& reaperWish.flags ≠ 0

def InLoop (calm : Bool) (flags : Word) (reaper : Nat) : ThreadPlace → Prop
  | .wait object wish timeout place after =>
      object = .flags reaper ∧ wish = reaperWish ∧ timeout = osWaitForever ∧ after = .reap ∧
        LoopWait calm flags place
  | .collect found | .pop found | .clean _ _ (.reaper found) => found &&& forbidden calm = 0
  | _ => False

def Loops (calm : Bool) (state : ThreadsState) : Prop :=
  ∀ reaper, state.reaper = some reaper →
    state.words (.flags reaper) someFlags.flags &&& forbidden calm = 0 ∧
      state.Has reaper fun thread =>
        InLoop calm (state.words (.flags reaper) someFlags.flags) reaper thread.place

theorem and_forbidden {calm : Bool} {flags : Word} (none_ : flags &&& forbidden calm = 0) :
    flags &&& osFlagsError = 0 ∧ (calm = true → flags &&& rtosReaperExit = 0) := by
  cases calm with
  | false => exact ⟨none_, nofun⟩
  | true =>
      change flags &&& (osFlagsError ||| rtosReaperExit) = 0 at none_
      rw [BitVec.and_or_distrib_left] at none_
      exact ⟨(BitVec.or_eq_zero_iff.mp none_).1, fun _ => (BitVec.or_eq_zero_iff.mp none_).2⟩

theorem and_forbidden_of {calm : Bool} {flags : Word} (noError : flags &&& osFlagsError = 0)
    (noExit : calm = true → flags &&& rtosReaperExit = 0) : flags &&& forbidden calm = 0 := by
  cases calm with
  | false => exact noError
  | true =>
      change flags &&& (osFlagsError ||| rtosReaperExit) = 0
      rw [BitVec.and_or_distrib_left, noError, noExit rfl]
      rfl

theorem wish_or_ne_zero {flags more wish : Word} (some_ : flags &&& wish ≠ 0) :
    (flags ||| more) &&& wish ≠ 0 := by
  rw [BitVec.and_or_distrib_right]
  exact fun none_ => some_ (BitVec.or_eq_zero_iff.mp none_).1

theorem InLoop.or {calm : Bool} {flags more : Word} {reaper : Nat} {place : ThreadPlace}
    (inLoop : InLoop calm flags reaper place) : InLoop calm (flags ||| more) reaper place := by
  cases place with
  | wait object wish timeout place after =>
      obtain ⟨isObject, isWish, isTimeout, isAfter, waits⟩ := inLoop
      refine ⟨isObject, isWish, isTimeout, isAfter, ?_⟩
      rcases place with place | value
      · cases place with
        | consume => exact wish_or_ne_zero waits
        | leave exit =>
            cases exit with
            | consume => exact wish_or_ne_zero waits
            | _ => exact waits
        | _ => trivial
      · cases value with
        | none => exact waits
        | some value => exact waits
  | clean thread part cleaner =>
      cases cleaner with
      | joiner => exact inLoop
      | reaper found => exact inLoop
  | _ => exact inLoop

section Loops

variable {calm : Bool} {state next : ThreadsState} {index : Nat} {place : ThreadPlace}
  {own : RtosThread} {update : RtosThread → RtosThread} {object : EventObject}

theorem Loops.notReaper (loops : Loops calm state) (found : state.threads[index]? = some own)
    (elsewhere : ∀ flags, ¬ InLoop calm flags index own.place) : state.reaper ≠ some index := by
  intro isReaper
  exact elsewhere _ ((loops index isReaper).2.of_found found)

theorem Loops.congr (loops : Loops calm state) (threads : next.threads = state.threads)
    (reaper : next.reaper = state.reaper) (words : next.words = state.words) : Loops calm next := by
  intro other isReaper
  obtain ⟨noFlags, thread, found, inLoop⟩ := loops other (reaper ▸ isReaper)
  rw [words]
  exact ⟨noFlags, thread, threads ▸ found, inLoop⟩

theorem Loops.change (loops : Loops calm state)
    (stays : state.reaper = some index → ∀ thread, (update thread).place = thread.place) :
    Loops calm (state.change index update) := by
  intro reaper isReaper
  obtain ⟨noFlags, thread, found, inLoop⟩ := loops reaper isReaper
  refine ⟨noFlags, has_change ⟨thread, found, inLoop⟩ ?_ fun _ _ _ holds => holds⟩
  rintro rfl thread _ inLoop
  rw [stays isReaper thread]
  exact inLoop

theorem Loops.move (loops : Loops calm state) (notReaper : state.reaper ≠ some index) :
    Loops calm (state.move index place) :=
  loops.change fun isReaper => (notReaper isReaper).elim

theorem Loops.moveReaper (loops : Loops calm state)
    (inLoop : InLoop calm (state.words (.flags index) someFlags.flags) index place) :
    Loops calm (state.move index place) := by
  intro reaper isReaper
  obtain ⟨noFlags, thread, found, before⟩ := loops reaper isReaper
  refine ⟨noFlags, has_change ⟨thread, found, before⟩ ?_ fun _ _ _ holds => holds⟩
  rintro rfl _ _ _
  exact inLoop

theorem Loops.setWord (loops : Loops calm state) {address value : Word}
    (other : ∀ reaper, state.reaper = some reaper → object = .flags reaper →
      address ≠ someFlags.flags) : Loops calm (state.setWord object address value) := by
  intro reaper isReaper
  have same : (state.setWord object address value).words (.flags reaper) someFlags.flags =
      state.words (.flags reaper) someFlags.flags := by
    change Function.update state.words object _ (.flags reaper) someFlags.flags = _
    by_cases isIt : EventObject.flags reaper = object
    · rw [isIt, Function.update_self, Function.update_of_ne (other reaper isReaper isIt.symm).symm]
    · rw [Function.update_of_ne isIt]
  rw [same]
  exact loops reaper isReaper

theorem Loops.setFlags (loops : Loops calm state) {flags : Word}
    (allowed : ∀ reaper, state.reaper = some reaper → object = .flags reaper →
      flags &&& forbidden calm = 0) : Loops calm (state.setFlags object flags) := by
  intro reaper isReaper
  obtain ⟨noFlags, thread, found, inLoop⟩ := loops reaper isReaper
  by_cases isIt : object = .flags reaper
  · have more : (state.setFlags object flags).words (.flags reaper) someFlags.flags =
        state.words (.flags reaper) someFlags.flags ||| flags := by
      rw [isIt]
      change Function.update state.words (.flags reaper) _ (.flags reaper) someFlags.flags = _
      rw [Function.update_self, Function.update_self]
    rw [more]
    refine ⟨?_, thread, found, inLoop.or⟩
    rw [BitVec.and_or_distrib_right, noFlags, allowed reaper isReaper isIt]
    rfl
  · have same : (state.setFlags object flags).words (.flags reaper) someFlags.flags =
        state.words (.flags reaper) someFlags.flags := by
      change Function.update state.words object _ (.flags reaper) someFlags.flags = _
      rw [Function.update_of_ne (Ne.symm isIt)]
    rw [same]
    exact ⟨noFlags, thread, found, inLoop⟩

theorem Loops.abort (loops : Loops calm state) (aborter : Aborter) : Loops calm (state.abort aborter) :=
  loops.congr rfl rfl rfl

theorem Loops.setOrAbort (loops : Loops calm state) {flags : Word} (wakeStatus : Result)
    (allowed : ∀ reaper, state.reaper = some reaper → object = .flags reaper →
      flags &&& forbidden calm = 0) : Loops calm (state.setOrAbort object flags wakeStatus) := by
  rw [ThreadsState.setOrAbort]
  split
  · exact (loops.setFlags allowed).abort _
  · exact loops.setFlags allowed

theorem clean_forbidden : rtosReaperClean &&& forbidden calm = 0 := by
  cases calm with
  | _ => decide

theorem Loops.kickReaper (loops : Loops calm state) (wakeStatus : Result) :
    Loops calm (state.kickReaper wakeStatus) := by
  rw [ThreadsState.kickReaper]
  split
  · exact loops.abort _
  · split
    · exact loops.setOrAbort _ fun _ _ _ => clean_forbidden
    · exact loops.abort _

theorem Loops.endTask (loops : Loops calm state) (thread : RtosThread) (wakeStatus : Result) :
    Loops calm (state.endTask index thread wakeStatus) := by
  have ends : Loops calm (state.change index RtosThread.endTask) := loops.change fun _ _ => rfl
  rw [ThreadsState.endTask]
  split
  · exact ends.setOrAbort _ fun _ _ same => by cases same
  · refine Loops.kickReaper ?_ wakeStatus
    exact ends.change fun _ _ => rfl

theorem reaper_endTask (thread : RtosThread) (wakeStatus : Result) :
    (state.endTask index thread wakeStatus).reaper = state.reaper := by
  have sets : ∀ {middle : ThreadsState} object flags,
      (middle.setOrAbort object flags wakeStatus).reaper = middle.reaper := by
    intro middle object flags
    rw [ThreadsState.setOrAbort]
    split
    · rfl
    · rfl
  rw [ThreadsState.endTask]
  split
  · exact sets _ _
  · rw [ThreadsState.kickReaper]
    split
    · rfl
    · split
      · exact sets _ _
      · rfl

theorem Loops.collect (loops : Loops calm state) : Loops calm state.collect := by
  intro reaper isReaper
  obtain ⟨noFlags, thread, found, inLoop⟩ := loops reaper isReaper
  refine ⟨noFlags, if thread.reapable then thread.unregister else thread, ?_, ?_⟩
  · rw [ThreadsState.collect, List.getElem?_map, found]
    rfl
  · split
    · exact inLoop
    · exact inLoop

theorem Loops.unregister (loops : Loops calm state) (thread : Nat) :
    Loops calm (state.unregister thread) := by
  have changed : Loops calm (state.change thread RtosThread.unregister) := loops.change fun _ _ => rfl
  exact changed.congr rfl rfl rfl

theorem Loops.reclaim (loops : Loops calm state) (thread : Nat) (byReaper : Bool) :
    Loops calm (state.reclaim index thread byReaper) := by
  have changed : Loops calm (state.change thread RtosThread.clearMarker) := loops.change fun _ _ => rfl
  exact changed.congr rfl rfl rfl

theorem Loops.append (loops : Loops calm state) {fresh : RtosThread}
    (threads : next.threads = state.threads ++ [fresh]) (words : next.words = state.words)
    (reaper : next.reaper = state.reaper) : Loops calm next := by
  intro other isReaper
  obtain ⟨noFlags, thread, found, inLoop⟩ := loops other (reaper ▸ isReaper)
  rw [words]
  refine ⟨noFlags, thread, ?_, inLoop⟩
  rw [threads, List.getElem?_append_left (List.getElem?_eq_some_iff.mp found).1]
  exact found

theorem inLoop_reaperWait {flags : Word} : InLoop calm flags index (ThreadsState.reaperWait index) :=
  ⟨rfl, rfl, rfl, rfl, trivial⟩

theorem Loops.ensureReaper (life : Life state) (loops : Loops calm state) :
    Loops calm state.ensureReaper := by
  rw [ThreadsState.ensureReaper]
  split
  · exact loops
  · intro reaper isReaper
    obtain rfl := Option.some_inj.mp isReaper
    refine ⟨?_, _, List.getElem?_concat_length .., inLoop_reaperWait⟩
    change state.words _ _ &&& _ = 0
    rw [life.fresh _ (Nat.le_refl _)]
    exact BitVec.zero_and

theorem Loops.ensureFor (life : Life state) (loops : Loops calm state) (thread : RtosThread) :
    Loops calm (ensureFor thread state) := by
  rw [PicoToolkit.ensureFor]
  split
  · exact loops
  · exact loops.ensureReaper life

theorem getElem?_ensureReaper (found : state.threads[index]? = some own) :
    state.ensureReaper.threads[index]? = some own := by
  rw [ThreadsState.ensureReaper]
  split
  · exact found
  · exact (List.getElem?_append_left (List.getElem?_eq_some_iff.mp found).1).trans found

theorem getElem?_ensureFor {thread : RtosThread} (found : state.threads[index]? = some own) :
    (ensureFor thread state).threads[index]? = some own := by
  rw [ensureFor]
  split
  · exact found
  · exact getElem?_ensureReaper found

theorem Loops.osThreadExit (life : Life state) (loops : Loops calm state)
    (found : state.threads[index]? = some own)
    (elsewhere : ∀ flags, ¬ InLoop calm flags index own.place) :
    Loops calm (osThreadExit index own state) := by
  rw [PicoToolkit.osThreadExit]
  split
  · have ensured := loops.ensureFor life own
    exact ensured.move (ensured.notReaper (getElem?_ensureFor found) elsewhere)
  · exact loops.abort _

theorem setWord_self (state : ThreadsState) (object : EventObject) (address : Word) :
    state.setWord object address (state.words object address) = state := by
  rw [setWord, Function.update_eq_self, Function.update_eq_self]

theorem Loops.reaperDone (loops : Loops calm state) (flags : Word) :
    Loops calm (reaperDone flags index state) := by
  rw [PicoToolkit.reaperDone]
  split
  · exact loops.abort _
  · exact loops.moveReaper inLoop_reaperWait

theorem Loops.reaperWait (loops : Loops calm state) (isReaper : state.reaper = some index)
    {place : WaitPlace reaperWish}
    (waits : LoopWait calm (state.words (.flags index) someFlags.flags) (.inl place)) {answer : Result}
    (answers : calm = true → answer.negative = false)
    (moved : waitStep index (.flags index) reaperWish osWaitForever .reap place answer state =
      some next) : Loops calm next := by
  have noFlags := (loops index isReaper).1
  have counts : ∀ value goal,
      LoopWait calm (state.words (.flags index) someFlags.flags) goal →
      Loops calm ((state.setWord (.flags index) someFlags.waiters value).move index
        (.wait (.flags index) reaperWish osWaitForever goal .reap)) := by
    intro value goal goalWaits
    have written : Loops calm (state.setWord (.flags index) someFlags.waiters value) :=
      loops.setWord fun _ _ _ => someFlags.apart.symm
    have same : (state.setWord (.flags index) someFlags.waiters value).words (.flags index)
        someFlags.flags = state.words (.flags index) someFlags.flags := by
      change Function.update state.words (.flags index) _ (.flags index) someFlags.flags = _
      rw [Function.update_self, Function.update_of_ne someFlags.apart]
    refine written.moveReaper ⟨rfl, rfl, rfl, rfl, ?_⟩
    rw [same]
    exact goalWaits
  cases place with
  | enter =>
      obtain rfl := Option.some_inj.mp moved
      exact counts _ _ trivial
  | load =>
      obtain rfl := Option.some_inj.mp moved
      change Loops calm ((state.setWord (.flags index) someFlags.flags
        (state.words (.flags index) someFlags.flags)).move index _)
      rw [setWord_self]
      refine loops.moveReaper ⟨rfl, rfl, rfl, rfl, ?_⟩
      split
      · rename_i satisfied
        have isSet : state.words (.flags index) someFlags.flags &&& reaperWish.flags ≠ 0 :=
          of_decide_eq_true satisfied
        exact isSet
      · split
        · rename_i isZero
          exact absurd isZero (by decide)
        · split
          · rename_i isError
            exact isError (and_forbidden noFlags).1
          · trivial
  | leave exit =>
      obtain rfl := Option.some_inj.mp moved
      refine counts _ _ ?_
      cases exit with
      | consume => exact waits
      | resource => exact waits.elim
      | threadExit => exact waits.elim
      | timeout => exact Or.inl ⟨by decide, waits⟩
      | error => exact Or.inl ⟨by decide, waits⟩
  | consume =>
      obtain rfl := Option.some_inj.mp moved
      intro reaper isSame
      obtain rfl := Option.some_inj.mp (isReaper.symm.trans isSame)
      obtain ⟨_, own, found, _⟩ := loops index isReaper
      have cleared : ((state.setWord (.flags index) someFlags.flags
          (state.words (.flags index) someFlags.flags &&& reaperWish.clear)).words (.flags index)
            someFlags.flags) &&& forbidden calm = 0 := by
        change Function.update state.words (.flags index) _ (.flags index) someFlags.flags &&& _ = _
        rw [Function.update_self, Function.update_self, BitVec.and_assoc,
          BitVec.and_comm reaperWish.clear, ← BitVec.and_assoc, noFlags]
        exact BitVec.zero_and
      exact ⟨cleared, _, getElem?_change_self found, rfl, rfl, rfl, rfl, Or.inr ⟨noFlags, waits⟩⟩
  | wait expected =>
      obtain rfl := Option.some_inj.mp moved
      refine loops.moveReaper ⟨rfl, rfl, rfl, rfl, ?_⟩
      beta_reduce
      split
      · rename_i negative
        have notCalm : calm = false := by
          cases calm with
          | false => rfl
          | true => cases negative.symm.trans (answers rfl)
        split
        · exact notCalm
        · exact notCalm
      · trivial

theorem Loops.reaperStep (loops : Loops calm state) (isReaper : state.reaper = some index)
    (found : state.threads[index]? = some own) {answer : Result}
    (answers : calm = true → answer.negative = false)
    (moved : threadStep index answer own state = some next) : Loops calm next := by
  have inLoop := (loops index isReaper).2.of_found found
  cases threadMoves moved with
  | wait isPlace moved =>
      rw [isPlace] at inLoop
      obtain ⟨rfl, rfl, rfl, rfl, waits⟩ := inLoop
      exact loops.reaperWait isReaper waits answers moved
  | exit isPlace =>
      rw [isPlace] at inLoop
      exact inLoop.2.2.2.2.elim
  | @afterWait object wish timeout value after isPlace =>
      rw [isPlace] at inLoop
      obtain ⟨rfl, rfl, rfl, rfl, waits⟩ := inLoop
      rw [afterWait]
      split
      · exact loops.abort _
      · rename_i ok
        have noFlags : value &&& forbidden calm = 0 := by
          rcases waits with ⟨isError, _⟩ | ⟨noFlags, _⟩
          · exact (ok isError).elim
          · exact noFlags
        split
        · exact loops.moveReaper noFlags
        · exact loops.reaperDone value
  | invalid _ _ => exact loops.abort _
  | @reaped flags _ _ => exact loops.reaperDone flags
  | collect isPlace _ =>
      rw [isPlace] at inLoop
      exact loops.collect.moveReaper inLoop
  | popped isPlace _ =>
      rw [isPlace] at inLoop
      exact loops.moveReaper inLoop
  | @pop flags thread rest isPlace _ =>
      rw [isPlace] at inLoop
      have shorter : Loops calm { state with reapList := rest } := loops.congr rfl rfl rfl
      exact shorter.moveReaper inLoop
  | @clean thread part cleaner isPlace =>
      rw [isPlace] at inLoop
      cases cleaner with
      | joiner => exact inLoop.elim
      | reaper flags =>
          have deletes : ∀ object part,
              Loops calm (cleanDelete index thread object part (.reaper flags) state) := by
            intro object part
            have recorded : Loops calm (state.recordDelete object true) := loops.congr rfl rfl rfl
            unfold cleanDelete
            split
            · exact recorded.moveReaper inLoop
            · exact recorded.abort _
          have freed : Loops calm (state.freeMutexes thread) := loops.congr rfl rfl rfl
          cases part with
          | mutexes =>
              rw [cleanStep, cleanMutexes]
              split
              · split
                · exact loops.abort _
                · exact freed.moveReaper inLoop
              · exact loops.abort _
          | joiner => exact deletes _ _
          | flags => exact deletes _ _
          | clear => exact (loops.reclaim thread true).moveReaper inLoop
  | delete isPlace | remove isPlace | terminated isPlace _ _ | terminate isPlace _ _ | ended isPlace
  | detach isPlace | detached isPlace _ _ | mark isPlace _ _ _ | kick isPlace _ _ _ =>
      rw [isPlace] at inLoop
      exact inLoop.elim

theorem Loops.otherStep (life : Life state) (loops : Loops calm state)
    (other : state.reaper ≠ some index) (found : state.threads[index]? = some own) {answer : Result}
    (moved : threadStep index answer own state = some next) : Loops calm next := by
  have may := (life.threads index own found).place
  cases threadMoves moved with
  | @wait object wish timeout place after _ isPlace moved =>
      rw [isPlace] at may
      have notFlags : ∀ reaper, state.reaper = some reaper → object ≠ .flags reaper := by
        intro reaper isReaper isFlags
        rw [may.1 reaper isFlags] at isReaper
        exact other isReaper
      have writes : ∀ address value goal,
          Loops calm ((state.setWord object address value).move index goal) := by
        intro address value goal
        have written : Loops calm (state.setWord object address value) :=
          loops.setWord fun reaper isReaper isFlags => (notFlags reaper isReaper isFlags).elim
        exact written.move other
      cases place with
      | wait expected =>
          obtain rfl := Option.some_inj.mp moved
          exact loops.move other
      | _ =>
          obtain rfl := Option.some_inj.mp moved
          exact writes _ _ _
  | exit isPlace =>
      refine loops.osThreadExit life found fun flags inLoop => ?_
      rw [isPlace] at inLoop
      exact inLoop.2.2.2.2
  | @afterWait _ _ _ _ after isPlace =>
      rw [isPlace] at may
      cases after with
      | leave => exact loops.move other
      | join thread => exact loops.move other
      | reap => exact (other may.2.1).elim
  | @delete object _ =>
      have recorded : Loops calm (state.recordDelete object false) := loops.congr rfl rfl rfl
      exact recorded.move other
  | @remove thread _ => exact (loops.unregister thread).move other
  | @clean thread part cleaner isPlace =>
      rw [isPlace] at may
      cases cleaner with
      | reaper flags => exact (other may.1).elim
      | joiner =>
          have deletes : ∀ object part,
              Loops calm (cleanDelete index thread object part .joiner state) := by
            intro object part
            have recorded : Loops calm (state.recordDelete object true) := loops.congr rfl rfl rfl
            unfold cleanDelete
            split
            · exact recorded.move other
            · exact recorded.move other
          have freed : Loops calm (state.freeMutexes thread) := loops.congr rfl rfl rfl
          cases part with
          | mutexes =>
              rw [cleanStep, cleanMutexes]
              split
              · split
                · exact loops.move other
                · exact freed.move other
              · exact loops.abort _
          | joiner => exact deletes _ _
          | flags => exact deletes _ _
          | clear => exact (loops.reclaim thread false).move other
  | terminated _ _ _ | ended _ | detached _ _ _ => exact loops.move other
  | @terminate thread target _ _ _ =>
      have ends := @Loops.endTask calm state thread loops target answer
      refine ends.move ?_
      rw [reaper_endTask]
      exact other
  | @detach thread _ =>
      have changed : Loops calm (state.change thread RtosThread.detach) := loops.change fun _ _ => rfl
      exact changed.move other
  | @mark thread _ _ _ _ _ =>
      have marked : Loops calm (state.change thread RtosThread.markReap) := loops.change fun _ _ => rfl
      exact marked.move other
  | @kick thread _ _ _ _ _ _ =>
      have marked : Loops calm (state.change thread RtosThread.markReap) := loops.change fun _ _ => rfl
      exact Loops.move (marked.setFlags fun _ _ _ => clean_forbidden) other
  | invalid isPlace _ | reaped isPlace _ | collect isPlace _ =>
      rw [isPlace] at may
      exact (other may).elim
  | popped isPlace _ | pop isPlace _ =>
      rw [isPlace] at may
      exact (other may).elim

theorem Loops.beginRequest (life : Life state) (loops : Loops calm state)
    (found : state.threads[index]? = some own) (isOutside : own.place = .outside)
    (request : ThreadRequest) : Loops calm (beginRequest index own state request) := by
  have elsewhere : ∀ flags, ¬ InLoop calm flags index own.place := by
    intro flags inLoop
    rw [isOutside] at inLoop
    exact inLoop
  have other := loops.notReaper found elsewhere
  cases request with
  | osEventFlagsWait address wish timeout => exact loops.move other
  | osEventFlagsDelete address => exact loops.move other
  | osThreadFlagsWait wish timeout =>
      rw [PicoToolkit.beginRequest]
      split
      · exact loops.move other
      · exact loops
  | osThreadFlagsClear flags =>
      rw [PicoToolkit.beginRequest]
      split
      · refine loops.setWord ?_
        rintro reaper isReaper ⟨⟩
        exact (other isReaper).elim
      · exact loops
  | osThreadJoin thread =>
      rw [PicoToolkit.beginRequest]
      split
      · exact loops.move other
      · exact loops
  | osThreadDetach thread =>
      rw [PicoToolkit.beginRequest]
      split
      · have ensured := loops.ensureReaper life
        exact ensured.move (ensured.notReaper (getElem?_ensureReaper found) elsewhere)
      · exact loops
  | osThreadTerminate thread =>
      rw [PicoToolkit.beginRequest]
      split
      · exact loops
      · rename_i target _
        split
        · have ensured := loops.ensureFor life target
          exact ensured.move (ensured.notReaper (getElem?_ensureFor found) elsewhere)
        · exact loops
  | osThreadExit => exact loops.osThreadExit life found elsewhere

def SparesReaper (state : ThreadsState) : ThreadAction → Prop
  | .advance index answer => state.reaper = some index → answer.negative = false
  | .osThreadFlagsSet thread flags => state.reaper = some thread → flags &&& rtosReaperExit = 0
  | _ => True

theorem Loops.step (life : Life state) (loops : Loops calm state) {action : ThreadAction}
    (spares : calm = true → SparesReaper state action) (moved : state.step action = some next) :
    Loops calm next := by
  cases threadSteps moved with
  | osThreadNew _ => exact loops.append rfl rfl rfl
  | request request found isOutside _ => exact loops.beginRequest life found isOutside request
  | @advance index _ _ _ found _ isNext =>
      by_cases isReaper : state.reaper = some index
      · exact loops.reaperStep isReaper found (fun isCalm => spares isCalm isReaper) isNext
      · exact loops.otherStep life isReaper found isNext
  | schedule _ _ _ => exact loops.change fun _ _ => rfl
  | @evict _ own wakeStatus _ _ => exact loops.endTask own wakeStatus
  | robustMutexes _ => exact loops.congr rfl rfl rfl
  | osEventFlagsSet _ => exact loops.setFlags fun _ _ same => by cases same
  | osEventFlagsClear _ => exact loops.setWord fun _ _ same => by cases same
  | osThreadFlagsSet valid _ =>
      refine loops.setFlags ?_
      rintro reaper isReaper ⟨⟩
      exact and_forbidden_of valid fun isCalm => spares isCalm isReaper

theorem Loops.initial (begins : threadsSystem.initial state) : Loops calm state := by
  intro reaper isReaper
  cases begins.2.2.1.symm.trans isReaper

end Loops

end PicoToolkit
