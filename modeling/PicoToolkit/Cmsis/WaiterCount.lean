import PicoToolkit.Cmsis.Threads

/-!
The waiters of event flags: as long as no thread is terminated that waits, they are counted exactly.
-/

namespace PicoToolkit

open Transition Interleaving

section Lists

variable {A B : Type} {items : List A} {index : Nat} {item : A}

theorem map_modify_eq {read : A → B} {update : A → A}
    (kept : ∀ item, items[index]? = some item → read (update item) = read item) :
    (items.modify index update).map read = items.map read := by
  apply List.ext_getElem?
  intro position
  rw [List.getElem?_map, List.getElem?_map]
  by_cases isIt : index = position
  · subst isIt
    rw [List.getElem?_modify_eq]
    cases found : items[index]? with
    | none => rfl
    | some item => exact congrArg some (kept item found)
  · rw [List.getElem?_modify_ne _ _ isIt]

theorem modify_eq_set_of_getElem? {update : A → A} (found : items[index]? = some item) :
    items.modify index update = items.set index (update item) := by
  apply List.ext_getElem?
  intro position
  by_cases isIt : index = position
  · subst isIt
    rw [List.getElem?_modify_eq, List.getElem?_set_self (List.getElem?_eq_some_iff.mp found).1, found]
    rfl
  · rw [List.getElem?_modify_ne _ _ isIt, List.getElem?_set_ne isIt]

end Lists

namespace ThreadsState

def waits (state : ThreadsState) : List (Option EventObject) := state.threads.map RtosThread.waitsFor

def waiters (state : ThreadsState) (object : EventObject) : Word :=
  state.words object someFlags.waiters

theorem waiting_eq (state : ThreadsState) (object : EventObject) :
    state.waiting object = state.waits.countP fun waits => decide (waits = some object) := by
  rw [waiting, waits, List.countP_map]
  rfl

/-- A step that leaves the waiters and those who wait as they are; new threads do not wait. -/
structure Quiet (state next : ThreadsState) : Prop where
  waits : ∃ fresh, next.waits = state.waits ++ List.replicate fresh none
  waiters : ∀ object, next.waiters object = state.waiters object

section Steps

variable {state middle next : ThreadsState} {index : Nat} {own : RtosThread} {place : ThreadPlace}
  {update : RtosThread → RtosThread} {object : EventObject}

theorem quiet_of_waits (waits : next.waits = state.waits) (words : next.words = state.words) :
    Quiet state next :=
  ⟨⟨0, waits.trans (List.append_nil _).symm⟩, fun object => congrFun (congrFun words object) _⟩

theorem Quiet.trans (first : Quiet state middle) (second : Quiet middle next) : Quiet state next := by
  obtain ⟨some_, waits⟩ := first.waits
  obtain ⟨more, waitsNext⟩ := second.waits
  refine ⟨⟨some_ + more, ?_⟩, fun object => (second.waiters object).trans (first.waiters object)⟩
  rw [waitsNext, waits, List.append_assoc, List.replicate_append_replicate]

theorem Quiet.idle (quiet : Quiet state next) (before : state.waits[index]? = some none) :
    next.waits[index]? = some none := by
  obtain ⟨_, waits⟩ := quiet.waits
  rw [waits, List.getElem?_append_left (List.getElem?_eq_some_iff.mp before).1]
  exact before

theorem quiet_change (kept : ∀ thread, state.threads[index]? = some thread →
    (update thread).waitsFor = thread.waitsFor) : Quiet state (state.change index update) :=
  quiet_of_waits (map_modify_eq kept) rfl

theorem quiet_move (before : state.waits[index]? = some none) (after : place.waitsFor = none) :
    Quiet state (state.move index place) := by
  apply quiet_change
  intro thread found
  rw [waits, List.getElem?_map, found] at before
  rw [Option.some_inj.mp before, RtosThread.waitsFor, after, ite_self]

theorem Quiet.move (quiet : Quiet state next) (before : state.waits[index]? = some none)
    (after : place.waitsFor = none) : Quiet state (next.move index place) :=
  quiet.trans (quiet_move (quiet.idle before) after)

theorem quiet_abort {aborter : Aborter} : Quiet state (state.abort aborter) := quiet_of_waits rfl rfl

theorem quiet_setWord {address value : Word} (other : address ≠ someFlags.waiters) :
    Quiet state (state.setWord object address value) := by
  refine ⟨⟨0, (List.append_nil _).symm⟩, fun target => ?_⟩
  change Function.update state.words object _ target _ = _
  by_cases isIt : target = object
  · rw [isIt, Function.update_self, Function.update_of_ne other.symm]
    rfl
  · rw [Function.update_of_ne isIt]
    rfl

theorem quiet_setFlags (flags : Word) : Quiet state (state.setFlags object flags) :=
  quiet_setWord someFlags.apart

theorem quiet_setOrAbort (flags : Word) (wakeStatus : Result) :
    Quiet state (state.setOrAbort object flags wakeStatus) := by
  rw [setOrAbort]
  split
  · exact (quiet_setFlags flags).trans quiet_abort
  · exact quiet_setFlags flags

theorem quiet_kickReaper (wakeStatus : Result) : Quiet state (state.kickReaper wakeStatus) := by
  rw [kickReaper]
  split
  · exact quiet_abort
  · split
    · exact quiet_setOrAbort _ _
    · exact quiet_abort

theorem quiet_recordDelete (cleans : Bool) : Quiet state (state.recordDelete object cleans) :=
  quiet_of_waits rfl rfl

theorem quiet_collect : Quiet state state.collect := by
  refine quiet_of_waits ?_ rfl
  rw [waits, collect, List.map_map, waits]
  apply List.map_congr_left
  intro thread _
  rw [Function.comp_apply]
  split
  · rfl
  · rfl

theorem quiet_unregister (thread : Nat) : Quiet state (state.unregister thread) := by
  refine quiet_of_waits ?_ rfl
  exact map_modify_eq fun _ _ => rfl

theorem quiet_reclaim (thread : Nat) (byReaper : Bool) :
    Quiet state (state.reclaim index thread byReaper) := by
  refine quiet_of_waits ?_ rfl
  exact map_modify_eq fun _ _ => rfl

theorem waitsFor_waitFor (wish : FlagsWish) (timeout : Word) (after : AfterWait) :
    (waitFor object wish timeout after).waitsFor = none := by
  rw [waitFor, osEventFlagsWaitStart]
  split
  · rfl
  · split
    · rfl
    · split
      · rfl
      · rfl

theorem quiet_append {fresh : RtosThread} (notWaiting : fresh.waitsFor = none)
    (threads : next.threads = state.threads ++ [fresh]) (words : next.words = state.words) :
    Quiet state next := by
  refine ⟨⟨1, ?_⟩, fun object => congrFun (congrFun words object) _⟩
  rw [waits, threads, List.map_append, List.map_singleton, notWaiting]
  rfl

theorem quiet_ensureReaper : Quiet state state.ensureReaper := by
  rw [ensureReaper]
  split
  · exact quiet_of_waits rfl rfl
  · exact quiet_append ((if_neg nofun).trans (waitsFor_waitFor ..)) rfl rfl

theorem quiet_ensureFor (thread : RtosThread) : Quiet state (ensureFor thread state) := by
  rw [ensureFor]
  split
  · exact quiet_of_waits rfl rfl
  · exact quiet_ensureReaper

theorem quiet_endTask (found : state.threads[index]? = some own) (notWaiting : own.waitsFor = none)
    (wakeStatus : Result) : Quiet state (state.endTask index own wakeStatus) := by
  have ended : Quiet state (state.change index RtosThread.endTask) := by
    apply quiet_change
    intro thread isThread
    obtain rfl := Option.some_inj.mp (found.symm.trans isThread)
    rw [notWaiting]
    rfl
  rw [endTask]
  split
  · exact ended.trans (quiet_setOrAbort _ _)
  · refine (ended.trans ?_).trans (quiet_kickReaper _)
    exact quiet_change fun _ _ => rfl

theorem waits_move (found : state.threads[index]? = some own) (live : own.state ≠ .terminated) :
    (state.move index place).waits = state.waits.set index place.waitsFor := by
  have moved : (state.move index place).threads = state.threads.set index { own with place := place } :=
    modify_eq_set_of_getElem? found
  rw [waits, moved, List.map_set, RtosThread.waitsFor, if_neg live]
  rfl

theorem waits_getElem? (found : state.threads[index]? = some own) (live : own.state ≠ .terminated) :
    state.waits[index]? = some own.place.waitsFor := by
  rw [waits, List.getElem?_map, found, Option.map_some, RtosThread.waitsFor, if_neg live]

end Steps

def Counts (state : ThreadsState) : Prop :=
  ∀ object, state.waiters object = BitVec.ofNat 32 (state.waiting object)

section Counts

variable {state next : ThreadsState} {index : Nat} {own : RtosThread} {object : EventObject}

theorem Counts.quiet (counts : Counts state) (quiet : Quiet state next) : Counts next := by
  intro object
  obtain ⟨fresh, waits⟩ := quiet.waits
  have nobody : (List.replicate fresh none).countP (fun waits => decide (waits = some object)) = 0 := by
    rw [List.countP_eq_zero]
    intro waits member
    rw [List.eq_of_mem_replicate member, decide_eq_true_iff]
    exact nofun
  rw [quiet.waiters, waiting_eq, waits, List.countP_append, nobody, Nat.add_zero, ← waiting_eq]
  exact counts object

theorem Counts.moved (counts : Counts state) {before after : Bool}
    (found : state.waits[index]? = some (if before then some object else none))
    (waits : next.waits = state.waits.set index (if after then some object else none))
    (own : next.waiters object =
      state.waiters object + BitVec.ofNat 32 after.toNat - BitVec.ofNat 32 before.toNat)
    (others : ∀ other, other ≠ object → next.waiters other = state.waiters other) : Counts next := by
  intro target
  have sum := @countP_set _ _ (fun waits => decide (waits = some target)) _ _ found
    (if after then some object else none)
  rw [← waits, ← waiting_eq, ← waiting_eq] at sum
  by_cases isIt : target = object
  · subst isIt
    have counted : ∀ flag : Bool,
        decide ((if flag then some target else none) = some target) = flag := by
      intro flag
      cases flag with
      | true => simp
      | false => simp
    rw [counted, counted] at sum
    have words := congrArg (BitVec.ofNat 32) sum
    rw [BitVec.ofNat_add, BitVec.ofNat_add, ← counts target] at words
    rw [own, ← words, BitVec.add_sub_cancel]
  · have uncounted : ∀ flag : Bool,
        decide ((if flag then some object else none) = some target) = false := by
      intro flag
      cases flag with
      | true => simp [Ne.symm isIt]
      | false => simp
    rw [uncounted, uncounted] at sum
    rw [others target isIt, counts target, show next.waiting target = state.waiting target from sum]

theorem Counts.waitStep (counts : Counts state) (found : state.threads[index]? = some own)
    (live : own.state ≠ .terminated) {wish : FlagsWish} {timeout : Word} {after : AfterWait}
    {place : WaitPlace wish} (isPlace : own.place = .wait object wish timeout (.inl place) after)
    {answer : Result}
    (moved : waitStep index object wish timeout after place answer state = some next) : Counts next := by
  have before := waits_getElem? found live
  rw [isPlace] at before
  have setsFlags : ∀ value next, WaitPlace.counted next = WaitPlace.counted (.inl place) →
      Counts ((state.setWord object someFlags.flags value).move index
        (.wait object wish timeout next after)) := by
    intro value next same
    have written := counts.quiet (@quiet_setWord state object someFlags.flags value someFlags.apart)
    refine @Counts.moved _ _ _ _ written _ (WaitPlace.counted next) before ?_ ?_ fun _ _ => rfl
    · exact waits_move found live
    · rw [same, BitVec.add_sub_cancel]
      rfl
  have countsWaiters : ∀ value next,
      value = state.waiters object + BitVec.ofNat 32 (WaitPlace.counted next).toNat -
        BitVec.ofNat 32 (WaitPlace.counted (.inl place)).toNat →
      Counts ((state.setWord object someFlags.waiters value).move index
        (.wait object wish timeout next after)) := by
    intro value next isValue
    refine counts.moved before (waits_move found live) ?_ fun other different => ?_
    · rw [← isValue]
      change Function.update state.words object _ object someFlags.waiters = value
      rw [Function.update_self, Function.update_self]
    · change Function.update state.words object _ other someFlags.waiters = _
      rw [Function.update_of_ne different]
      rfl
  cases place with
  | enter =>
      obtain rfl := Option.some_inj.mp moved
      exact countsWaiters _ _ (BitVec.sub_zero _).symm
  | load =>
      obtain rfl := Option.some_inj.mp moved
      apply setsFlags
      split
      · rfl
      · split
        · rfl
        · split
          · rfl
          · rfl
  | leave exit =>
      obtain rfl := Option.some_inj.mp moved
      apply countsWaiters
      cases exit with
      | _ => exact congrArg (· - 1) (BitVec.add_zero _).symm
  | consume =>
      obtain rfl := Option.some_inj.mp moved
      exact setsFlags _ _ rfl
  | wait expected =>
      obtain rfl := Option.some_inj.mp moved
      refine @Counts.moved _ _ _ _ counts true true before ?_ (BitVec.add_sub_cancel _ _).symm
        fun _ _ => rfl
      refine (waits_move found live).trans (congrArg (state.waits.set index) ?_)
      have stays : ∀ place : WaitPlace wish, WaitPlace.counted (.inl place) →
          ThreadPlace.waitsFor (.wait object wish timeout (.inl place) after) = some object :=
        fun _ counted => if_pos counted
      apply stays
      split
      · split
        · rfl
        · rfl
      · rfl

theorem quiet_reaperDone (before : state.waits[index]? = some none) (flags : Word) :
    Quiet state (reaperDone flags index state) := by
  rw [reaperDone]
  split
  · exact quiet_abort
  · exact quiet_move before (waitsFor_waitFor ..)

theorem quiet_osThreadExit (before : state.waits[index]? = some none) :
    Quiet state (osThreadExit index own state) := by
  rw [osThreadExit]
  split
  · exact (quiet_ensureFor own).move before rfl
  · exact quiet_abort

theorem quiet_afterWait (before : state.waits[index]? = some none) (value : Word) (after : AfterWait) :
    Quiet state (afterWait index value state after) := by
  cases after with
  | leave => exact quiet_move before rfl
  | join thread =>
      apply quiet_move before
      split
      · rfl
      · rfl
  | reap =>
      rw [afterWait]
      split
      · exact quiet_abort
      · split
        · exact quiet_move before rfl
        · exact quiet_reaperDone before value

theorem quiet_cleanDelete (before : state.waits[index]? = some none) (thread : Nat) (part : CleanPart)
    (cleaner : Cleaner) : Quiet state (cleanDelete index thread object part cleaner state) := by
  unfold cleanDelete
  split
  · exact (quiet_recordDelete true).move before rfl
  · cases cleaner with
    | joiner => exact (quiet_recordDelete true).move before rfl
    | reaper flags => exact (quiet_recordDelete true).trans quiet_abort

theorem quiet_cleanMutexes (before : state.waits[index]? = some none) (thread : Nat) (cleaner : Cleaner)
    (answer : Result) : Quiet state (cleanMutexes index thread cleaner answer state) := by
  unfold cleanMutexes
  split
  · split
    · cases cleaner with
      | joiner => exact quiet_move before rfl
      | reaper flags => exact quiet_abort
    · have freed : Quiet state (state.freeMutexes thread) := quiet_of_waits rfl rfl
      exact freed.move before rfl
  · cases cleaner with
    | joiner => exact quiet_abort
    | reaper flags => exact quiet_abort

theorem quiet_cleanStep (before : state.waits[index]? = some none) (thread : Nat) (part : CleanPart)
    (cleaner : Cleaner) (answer : Result) :
    Quiet state (cleanStep index thread part cleaner answer state) := by
  cases part with
  | mutexes => exact quiet_cleanMutexes before thread cleaner answer
  | joiner => exact quiet_cleanDelete before thread _ cleaner
  | flags => exact quiet_cleanDelete before thread _ cleaner
  | clear =>
      cases cleaner with
      | joiner => exact (quiet_reclaim thread false).move before rfl
      | reaper flags => exact (quiet_reclaim thread true).move before rfl

theorem quiet_threadStep (found : state.threads[index]? = some own) (live : own.state ≠ .terminated)
    (notWaiting : ∀ object wish timeout place after,
      own.place ≠ .wait object wish timeout (.inl place) after)
    (spares : ∀ thread, own.place = .terminate thread →
      state.threads[thread]?.bind RtosThread.waitsFor = none)
    {answer : Result} (moved : threadStep index answer own state = some next) : Quiet state next := by
  have before := waits_getElem? found live
  cases threadMoves moved with
  | wait isPlace _ => exact (notWaiting _ _ _ _ _ isPlace).elim
  | afterWait isPlace =>
      rw [isPlace] at before
      exact quiet_afterWait before _ _
  | exit isPlace =>
      rw [isPlace] at before
      exact quiet_osThreadExit before
  | delete isPlace =>
      rw [isPlace] at before
      exact (quiet_recordDelete false).move before rfl
  | remove isPlace =>
      rw [isPlace] at before
      exact (quiet_unregister _).move before rfl
  | clean isPlace =>
      rw [isPlace] at before
      exact quiet_cleanStep before _ _ _ _
  | terminated isPlace _ _ | ended isPlace | detached isPlace _ _ | popped isPlace _ =>
      rw [isPlace] at before
      exact quiet_move before rfl
  | terminate isPlace isTarget _ =>
      rw [isPlace] at before
      have spared := spares _ isPlace
      rw [isTarget] at spared
      exact (quiet_endTask isTarget spared answer).move before rfl
  | @detach thread isPlace =>
      rw [isPlace] at before
      have changed := @quiet_change state thread RtosThread.detach fun _ _ => rfl
      exact changed.move before rfl
  | @mark thread _ isPlace _ _ _ =>
      rw [isPlace] at before
      have marked := @quiet_change state thread RtosThread.markReap fun _ _ => rfl
      exact marked.move before rfl
  | @kick thread _ _ isPlace _ _ _ =>
      rw [isPlace] at before
      have marked := @quiet_change state thread RtosThread.markReap fun _ _ => rfl
      exact (marked.trans (quiet_setFlags _)).move before rfl
  | invalid _ _ => exact quiet_abort
  | @reaped flags isPlace _ =>
      rw [isPlace] at before
      exact quiet_reaperDone before flags
  | collect isPlace _ =>
      rw [isPlace] at before
      exact quiet_collect.move before rfl
  | @pop _ _ rest isPlace _ =>
      rw [isPlace] at before
      have shorter : Quiet state { state with reapList := rest } := quiet_of_waits rfl rfl
      exact shorter.move before rfl

theorem quiet_beginRequest (before : state.waits[index]? = some none) (request : ThreadRequest) :
    Quiet state (beginRequest index own state request) := by
  have same : Quiet state state := quiet_of_waits rfl rfl
  cases request with
  | osEventFlagsWait address wish timeout => exact quiet_move before (waitsFor_waitFor ..)
  | osEventFlagsDelete address => exact quiet_move before rfl
  | osThreadFlagsWait wish timeout =>
      rw [beginRequest]
      split
      · exact quiet_move before (waitsFor_waitFor ..)
      · exact same
  | osThreadFlagsClear flags =>
      rw [beginRequest]
      split
      · exact quiet_setWord someFlags.apart
      · exact same
  | osThreadJoin thread =>
      rw [beginRequest]
      split
      · exact quiet_move before (waitsFor_waitFor ..)
      · exact same
  | osThreadDetach thread =>
      rw [beginRequest]
      split
      · exact quiet_ensureReaper.move before rfl
      · exact same
  | osThreadTerminate thread =>
      rw [beginRequest]
      split
      · exact same
      · split
        · exact (quiet_ensureFor _).move before rfl
        · exact same
  | osThreadExit => exact quiet_osThreadExit before

def SparesWaiters (state : ThreadsState) : ThreadAction → Prop
  | .advance index _ => ∀ thread ∈ state.threads[index]?.bind fun own => own.place.terminates,
      state.threads[thread]?.bind RtosThread.waitsFor = none
  | .evict index _ => state.threads[index]?.bind RtosThread.waitsFor = none
  | _ => True

theorem Counts.step (counts : Counts state) {action : ThreadAction} (spares : SparesWaiters state action)
    (moved : state.step action = some next) : Counts next := by
  cases threadSteps moved with
  | osThreadNew attrBits => exact counts.quiet (@quiet_append _ _ (RtosThread.new attrBits) rfl rfl rfl)
  | request request found isOutside live =>
      have before := waits_getElem? found live
      rw [isOutside] at before
      exact counts.quiet (quiet_beginRequest before request)
  | @advance index own answer _ found live isNext =>
      by_cases isWait : ∃ object wish timeout place after,
          own.place = .wait object wish timeout (.inl place) after
      · obtain ⟨object, wish, timeout, place, after, isPlace⟩ := isWait
        simp only [threadStep, isPlace] at isNext
        exact counts.waitStep found live isPlace isNext
      · refine counts.quiet (quiet_threadStep found live ?_ ?_ isNext)
        · intro object wish timeout place after isPlace
          exact isWait ⟨object, wish, timeout, place, after, isPlace⟩
        · intro thread isPlace
          refine spares thread ?_
          rw [found, Option.bind_some, isPlace]
          rfl
  | schedule found live stays =>
      apply counts.quiet
      apply quiet_change
      intro thread isThread
      obtain rfl := Option.some_inj.mp (found.symm.trans isThread)
      rw [RtosThread.waitsFor, RtosThread.waitsFor, if_neg live]
      exact if_neg stays
  | evict wakeStatus found _ =>
      rw [SparesWaiters, found] at spares
      exact counts.quiet (quiet_endTask found spares wakeStatus)
  | osEventFlagsSet _ | osThreadFlagsSet _ _ => exact counts.quiet (quiet_setFlags _)
  | osEventFlagsClear _ => exact counts.quiet (quiet_setWord someFlags.apart)
  | robustMutexes _ => exact counts.quiet (quiet_of_waits rfl rfl)

theorem Counts.initial (begins : threadsSystem.initial state) : Counts state := by
  obtain ⟨⟨attrBits, _, threads⟩, words, _⟩ := begins
  intro object
  rw [waiters, words, waiting_eq, waits, threads]
  rfl

end Counts

end ThreadsState

end PicoToolkit
