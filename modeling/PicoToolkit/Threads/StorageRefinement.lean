import PicoToolkit.Threads.Storage

/-!
As long as the slots are clean when they change hands, `tss_map` and the words of the threads are a map
from threads and live keys to values.
-/

namespace PicoToolkit

open Transition

variable {count : Nat} {state next : TssState count} {keys : Keys count} {thread : Fin count}

def TssPlace.Ok (map : Nat → Tss) (live : Nat → Option Word) : TssPlace → Prop
  | .idle => True
  | .claim _ slot | .clearUsed slot | .checkGet slot | .checkSet slot _ => slot < thrdKeysMax
  | .store destructor slot =>
      slot < thrdKeysMax ∧ live slot = some destructor ∧ (map slot).destructor = 0
  | .clearDestructor slot => slot < thrdKeysMax ∧ live slot = none
  | .read slot | .write slot _ => slot < thrdKeysMax ∧ (live slot).isSome

def ExitPlace.Ok (map : Nat → Tss) (live : Nat → Option Word) : ExitPlace → Prop
  | .running | .exited => True
  | .used _ slot _ | .destructing _ slot _ => slot < thrdKeysMax
  | .destructor _ slot _ => slot < thrdKeysMax ∧ (live slot).isSome
  | .value _ slot _ | .call _ slot _ _ =>
      slot < thrdKeysMax ∧ (map slot).destructor ≠ 0 ∧ live slot = some (map slot).destructor

/-- `tss_map` and the words of the threads hold the keys and their values. -/
structure Stores (state : TssState count) (keys : Keys count) : Prop where
  used : ∀ slot, slot < thrdKeysMax → (state.map slot).used = (keys.live slot).isSome
  bound : ∀ slot, (keys.live slot).isSome → slot < thrdKeysMax
  destructor : ∀ slot destructor, keys.live slot = some destructor →
    (state.map slot).destructor = destructor ∨ ∃ thread, (state.thread thread).call = .store destructor slot
  cleared : ∀ slot, slot < thrdKeysMax → keys.live slot = none →
    (state.map slot).destructor = 0 ∨ ∃ thread, (state.thread thread).call = .clearDestructor slot
  values : ∀ thread slot, (state.thread thread).exit ≠ .exited → (keys.live slot).isSome →
    (state.thread thread).words slot = keys.value thread slot
  marker : ∀ thread, (state.thread thread).words thrdKeysMax = thrdMarker
  calls : ∀ thread, (state.thread thread).call.Ok state.map keys.live
  exits : ∀ thread, (state.thread thread).exit.Ok state.map keys.live
  alive : ∀ thread, (state.thread thread).call ≠ .idle → (state.thread thread).exit ≠ .exited
  single : ∀ first second destructor other slot, (state.thread first).call = .store destructor slot →
    (state.thread second).call = .store other slot → first = second

theorem TssPlace.Ok.other {map after : Nat → Tss} {live lives : Nat → Option Word} {place : TssPlace}
    (ok : place.Ok map live)
    (sameLive : ∀ slot, place.busy = some slot → lives slot = live slot)
    (sameDestructor : ∀ destructor slot, place = .store destructor slot →
      (after slot).destructor = (map slot).destructor) : place.Ok after lives := by
  cases place with
  | store destructor slot =>
    exact ⟨ok.1, (sameLive slot rfl).trans ok.2.1, (sameDestructor _ slot rfl).trans ok.2.2⟩
  | clearDestructor slot => exact ⟨ok.1, (sameLive slot rfl).trans ok.2⟩
  | read slot | write slot _ => exact ⟨ok.1, (sameLive slot rfl).symm ▸ ok.2⟩
  | _ => exact ok

theorem ExitPlace.Ok.other {map after : Nat → Tss} {live lives : Nat → Option Word} {place : ExitPlace}
    (ok : place.Ok map live)
    (sameLive : ∀ slot, place.busy = some slot → lives slot = live slot)
    (sameDestructor : ∀ slot, (map slot).destructor ≠ 0 → (live slot).isSome →
      place.busy = some slot → (after slot).destructor = (map slot).destructor) :
    place.Ok after lives := by
  cases place with
  | destructor _ slot _ => exact ⟨ok.1, (sameLive slot rfl).symm ▸ ok.2⟩
  | value _ slot _ | call _ slot _ _ =>
    have isSome : (live slot).isSome := by
      rw [ok.2.2]
      rfl
    rw [ExitPlace.Ok, sameDestructor slot ok.2.1 isSome rfl, sameLive slot rfl]
    exact ok
  | _ => exact ok

theorem ExitPlace.next_ok {map : Nat → Tss} {live : Nat → Option Word} (iteration slot more : Nat) :
    (ExitPlace.next iteration slot more).Ok map live := by
  unfold ExitPlace.next
  split
  · assumption
  · split
    · trivial
    · split
      · exact (by decide : 0 < thrdKeysMax)
      · trivial

theorem TssCall.place_not_store (call : TssCall) (destructor : Word) (slot : Nat) :
    call.place ≠ .store destructor slot := by
  unfold TssCall.place
  split
  case h_1 | h_5 => simp
  all_goals split <;> simp

theorem TssCall.place_ok (call : TssCall) {map : Nat → Tss} {live : Nat → Option Word}
    (clean : CleanSlots state (.call thread call)) : call.place.Ok map live := by
  have bounded {key : Word} (notAbove : ¬ thrdKeysMax < key.toNat) (notBound : key.toNat ≠ thrdKeysMax) :
      key.toNat < thrdKeysMax := Nat.lt_of_le_of_ne (Nat.not_lt.mp notAbove) notBound
  cases call with
  | tssCreate destructor => exact (by decide : 0 < thrdKeysMax)
  | thrdExit => trivial
  | tssDelete key | tssGet key | tssSet key _ =>
    simp only [TssCall.place]
    split
    case isTrue => trivial
    case isFalse notAbove => exact bounded notAbove clean

namespace Stores

theorem change (stores : Stores state keys) {after : TssThread}
    {value : Fin count → Nat → Word}
    (notStoring : ∀ destructor slot, (state.thread thread).call ≠ .store destructor slot)
    (notClearing : ∀ slot, (state.thread thread).call ≠ .clearDestructor slot)
    (notAfter : ∀ destructor slot, after.call ≠ .store destructor slot)
    (call : after.call.Ok state.map keys.live) (exit : after.exit.Ok state.map keys.live)
    (marker : after.words thrdKeysMax = thrdMarker) (alive : after.call ≠ .idle → after.exit ≠ .exited)
    (values : ∀ slot, after.exit ≠ .exited → (keys.live slot).isSome →
      after.words slot = value thread slot)
    (others : ∀ other, other ≠ thread → value other = keys.value other) :
    Stores (state.set thread after) { keys with value := value } := by
  have self : (state.set thread after).thread thread = after := Function.update_self ..
  have same {other : Fin count} (different : other ≠ thread) :
      (state.set thread after).thread other = state.thread other := Function.update_of_ne different ..
  constructor
  · exact stores.used
  · exact stores.bound
  · intro slot destructor live
    refine (stores.destructor slot destructor live).imp_right fun ⟨other, place⟩ => ⟨other, ?_⟩
    rw [same fun isThread => notStoring _ _ (isThread ▸ place)]
    exact place
  · intro slot bound dead
    refine (stores.cleared slot bound dead).imp_right fun ⟨other, place⟩ => ⟨other, ?_⟩
    rw [same fun isThread => notClearing _ (isThread ▸ place)]
    exact place
  · intro other slot running live
    by_cases isThread : other = thread
    · subst isThread
      rw [self] at running ⊢
      exact values slot running live
    · rw [same isThread] at running ⊢
      rw [stores.values other slot running live, ← others other isThread]
  · intro other
    by_cases isThread : other = thread
    · rw [isThread, self]
      exact marker
    · rw [same isThread]
      exact stores.marker other
  · intro other
    by_cases isThread : other = thread
    · rw [isThread, self]
      exact call
    · rw [same isThread]
      exact stores.calls other
  · intro other
    by_cases isThread : other = thread
    · rw [isThread, self]
      exact exit
    · rw [same isThread]
      exact stores.exits other
  · intro other
    by_cases isThread : other = thread
    · rw [isThread, self]
      exact alive
    · rw [same isThread]
      exact stores.alive other
  · intro first second destructor other slot isFirst isSecond
    have notFirst : first ≠ thread := by
      rintro rfl
      rw [self] at isFirst
      exact notAfter _ _ isFirst
    have notSecond : second ≠ thread := by
      rintro rfl
      rw [self] at isSecond
      exact notAfter _ _ isSecond
    rw [same notFirst] at isFirst
    rw [same notSecond] at isSecond
    exact stores.single first second destructor other slot isFirst isSecond

theorem goes_alive (stores : Stores state keys) {place : TssPlace}
    (notIdle : (state.thread thread).call ≠ .idle) (other : Fin count)
    (busy : ((state.goes thread place).thread other).call ≠ .idle) :
    ((state.goes thread place).thread other).exit ≠ .exited := by
  rw [TssState.goes_exit]
  by_cases isThread : other = thread
  · subst isThread
    exact stores.alive other notIdle
  · rw [state.goes_of_ne place isThread] at busy
    exact stores.alive other busy

theorem goes (stores : Stores state keys) {place : TssPlace}
    (notStoring : ∀ destructor slot, (state.thread thread).call ≠ .store destructor slot)
    (notClearing : ∀ slot, (state.thread thread).call ≠ .clearDestructor slot)
    (notAfter : ∀ destructor slot, place ≠ .store destructor slot)
    (alive : place ≠ .idle → (state.thread thread).exit ≠ .exited)
    (ok : place.Ok state.map keys.live) : Stores (state.goes thread place) keys :=
  stores.change notStoring notClearing notAfter ok (stores.exits thread) (stores.marker thread) alive
    (stores.values thread) fun _ _ => rfl

theorem leaves (stores : Stores state keys) {place : ExitPlace} (idle : (state.thread thread).call = .idle)
    (running : (state.thread thread).exit ≠ .exited) (ok : place.Ok state.map keys.live) :
    Stores (state.leaves thread place) keys :=
  stores.change (by simp [idle]) (by simp [idle]) (by simp [idle]) (stores.calls thread) ok
    (stores.marker thread) (fun busy => absurd idle busy)
    (fun slot _ => stores.values thread slot running) fun _ _ => rfl

theorem write (stores : Stores state keys) {call : TssPlace} {exit : ExitPlace} (slot : Nat) (value : Word)
    (notMarker : slot ≠ thrdKeysMax)
    (notStoring : ∀ destructor slot, (state.thread thread).call ≠ .store destructor slot)
    (notClearing : ∀ slot, (state.thread thread).call ≠ .clearDestructor slot)
    (notAfter : ∀ destructor slot, call ≠ .store destructor slot)
    (callOk : call.Ok state.map keys.live) (exitOk : exit.Ok state.map keys.live)
    (alive : call ≠ .idle → exit ≠ .exited)
    (running : exit ≠ .exited → (state.thread thread).exit ≠ .exited) :
    Stores (state.set thread ⟨call, exit, Function.update (state.thread thread).words slot value⟩)
      (keys.put thread slot value) := by
  refine stores.change notStoring notClearing notAfter callOk exitOk ?_ alive (fun key stays live => ?_)
    fun other different => Function.update_of_ne different ..
  · simp only [Function.update_of_ne notMarker.symm]
    exact stores.marker thread
  · simp only [Function.update_self]
    by_cases same : key = slot
    · subst same
      simp only [Function.update_self]
    · simp only [Function.update_of_ne same]
      exact stores.values thread key (running stays) live

theorem calls_slot (stores : Stores state keys) {slot : Nat} {other : Fin count}
    (clean : ¬ (state.thread other).Busy slot) (tss : Tss) (live : Option Word) :
    (state.thread other).call.Ok (Function.update state.map slot tss)
      (Function.update keys.live slot live) := by
  have away {number : Nat} (busy : (state.thread other).call.busy = some number) : number ≠ slot :=
    fun isSlot => clean (Or.inl (isSlot ▸ busy))
  refine (stores.calls other).other (fun key busy => ?_) fun given key place => ?_
  · exact Function.update_of_ne (away busy) ..
  · rw [Function.update_of_ne (away (by rw [place]; rfl))]

theorem exits_slot (stores : Stores state keys) {slot : Nat} {other : Fin count}
    (clean : ¬ (state.thread other).Busy slot) (tss : Tss) (live : Option Word) :
    (state.thread other).exit.Ok (Function.update state.map slot tss)
      (Function.update keys.live slot live) := by
  have away {number : Nat} (busy : (state.thread other).exit.busy = some number) : number ≠ slot :=
    fun isSlot => clean (Or.inr (isSlot ▸ busy))
  refine (stores.exits other).other (fun key busy => ?_) fun key _ _ busy => ?_
  · exact Function.update_of_ne (away busy) ..
  · rw [Function.update_of_ne (away busy)]

theorem create (stores : Stores state keys) {destructor : Word} {slot : Nat}
    (isAt : (state.thread thread).call = .claim destructor slot)
    (free : (state.map slot).used = false)
    (clean : ∀ other, ¬ (state.thread other).Busy slot ∧
      ((state.thread other).exit ≠ .exited → (state.thread other).words slot = 0)) :
    ∃ created, keys.apply (.created slot destructor) = some created ∧
      Stores { state.goes thread (.store destructor slot) with
        map := Function.update state.map slot { state.map slot with used := true } } created := by
  have bound : slot < thrdKeysMax := by
    have ok := stores.calls thread
    rw [isAt] at ok
    exact ok
  have dead : keys.live slot = none := by
    have used := stores.used slot bound
    rw [free] at used
    exact Option.isNone_iff_eq_none.mp (by simpa using used.symm)
  have same {other : Fin count} (different : other ≠ thread) :=
    state.goes_of_ne (.store destructor slot) different
  have notBusy {other : Fin count} {number : Nat} (busy : (state.thread other).Busy number) : number ≠ slot :=
    fun isSlot => (clean other).1 (isSlot ▸ busy)
  refine ⟨_, if_pos ⟨bound, dead⟩, ?_⟩
  constructor
  · intro other isKey
    by_cases isSlot : other = slot
    · subst isSlot
      simp only [Function.update_self, Option.isSome_some]
    · simp only [Function.update_of_ne isSlot]
      exact stores.used other isKey
  · intro other live
    by_cases isSlot : other = slot
    · exact isSlot ▸ bound
    · simp only [Function.update_of_ne isSlot] at live
      exact stores.bound other live
  · intro other given live
    by_cases isSlot : other = slot
    · subst isSlot
      simp only [Function.update_self, Option.some.injEq] at live
      exact Or.inr ⟨thread, live ▸ state.goes_call_self thread _⟩
    · simp only [Function.update_of_ne isSlot] at live ⊢
      refine (stores.destructor other given live).imp_right fun ⟨storing, place⟩ => ⟨storing, ?_⟩
      rw [same]
      · exact place
      · rintro rfl
        simp [isAt] at place
  · intro other isKey none
    by_cases isSlot : other = slot
    · subst isSlot
      simp at none
    · simp only [Function.update_of_ne isSlot] at none ⊢
      refine (stores.cleared other isKey none).imp_right fun ⟨clearing, place⟩ => ⟨clearing, ?_⟩
      rw [same]
      · exact place
      · rintro rfl
        simp [isAt] at place
  · intro other key running live
    simp only [TssState.goes_exit, TssState.goes_words] at running ⊢
    by_cases isSlot : key = slot
    · subst isSlot
      simp only [Function.update_self]
      exact (clean other).2 running
    · simp only [Function.update_of_ne isSlot] at live ⊢
      exact stores.values other key running live
  · intro other
    simp only [TssState.goes_words]
    exact stores.marker other
  · intro other
    by_cases isThread : other = thread
    · subst isThread
      simp only [TssState.goes_call_self, TssPlace.Ok, Function.update_self]
      refine ⟨bound, trivial, (stores.cleared slot bound dead).resolve_right ?_⟩
      rintro ⟨clearing, place⟩
      exact (clean clearing).1 (Or.inl (by rw [place]; rfl))
    · simp only [same isThread]
      exact stores.calls_slot (clean other).1 _ _
  · intro other
    simp only [TssState.goes_exit]
    exact stores.exits_slot (clean other).1 _ _
  · exact stores.goes_alive (by simp [isAt])
  · intro first second one two key isFirst isSecond
    have onSlot {other : Fin count} {given : Word}
        (place : ((state.goes thread (.store destructor slot)).thread other).call = .store given key) :
        other = thread ∧ key = slot ∨ (state.thread other).call = .store given key ∧ key ≠ slot := by
      by_cases isThread : other = thread
      · subst isThread
        rw [TssState.goes_call_self] at place
        cases place
        exact Or.inl ⟨rfl, rfl⟩
      · rw [same isThread] at place
        exact Or.inr ⟨place, notBusy (Or.inl (by rw [place]; rfl))⟩
    rcases onSlot isFirst with ⟨rfl, isSlot⟩ | ⟨first, notSlot⟩
    · exact ((onSlot isSecond).resolve_right fun other => other.2 isSlot).1.symm
    · have second := ((onSlot isSecond).resolve_left fun other => notSlot other.2).1
      exact stores.single _ _ one two key first second

theorem finish (stores : Stores state keys) {slot : Nat} {tss : Tss} (bound : slot < thrdKeysMax)
    (used : tss.used = (state.map slot).used)
    (given : ∀ destructor, keys.live slot = some destructor → tss.destructor = destructor)
    (zero : keys.live slot = none → tss.destructor = 0)
    (onSlot : ∀ key, (∃ destructor, (state.thread thread).call = .store destructor key) ∨
      (state.thread thread).call = .clearDestructor key → key = slot)
    (notIdle : (state.thread thread).call ≠ .idle)
    (calls : ∀ other destructor, other ≠ thread →
      (state.thread other).call ≠ .store destructor slot)
    (loaded : (keys.live slot).isSome → (state.map slot).destructor = 0) :
    Stores { state.goes thread .idle with map := Function.update state.map slot tss } keys := by
  have same {other : Fin count} (different : other ≠ thread) := state.goes_of_ne .idle different
  have ended {destructor : Word} {key : Nat} {other : Fin count}
      (place : ((state.goes thread .idle).thread other).call = .store destructor key) :
      other ≠ thread ∧ (state.thread other).call = .store destructor key := by
    by_cases isThread : other = thread
    · subst isThread
      rw [TssState.goes_call_self] at place
      cases place
    · rw [same isThread] at place
      exact ⟨isThread, place⟩
  constructor
  · intro other isKey
    by_cases isSlot : other = slot
    · subst isSlot
      simp only [Function.update_self]
      exact used.trans (stores.used other isKey)
    · simp only [Function.update_of_ne isSlot]
      exact stores.used other isKey
  · exact stores.bound
  · intro other destructor live
    by_cases isSlot : other = slot
    · subst isSlot
      simp only [Function.update_self]
      exact Or.inl (given destructor live)
    · simp only [Function.update_of_ne isSlot]
      refine (stores.destructor other destructor live).imp_right fun ⟨storing, place⟩ => ⟨storing, ?_⟩
      rw [same]
      · exact place
      · rintro rfl
        exact isSlot (onSlot other (Or.inl ⟨_, place⟩))
  · intro other isKey dead
    by_cases isSlot : other = slot
    · subst isSlot
      simp only [Function.update_self]
      exact Or.inl (zero dead)
    · simp only [Function.update_of_ne isSlot]
      refine (stores.cleared other isKey dead).imp_right fun ⟨clearing, place⟩ => ⟨clearing, ?_⟩
      rw [same]
      · exact place
      · rintro rfl
        exact isSlot (onSlot other (Or.inr place))
  · intro other key running live
    simp only [TssState.goes_exit, TssState.goes_words] at running ⊢
    exact stores.values other key running live
  · intro other
    simp only [TssState.goes_words]
    exact stores.marker other
  · intro other
    by_cases isThread : other = thread
    · subst isThread
      simp only [TssState.goes_call_self]
      trivial
    · simp only [same isThread]
      refine (stores.calls other).other (fun _ _ => rfl) fun destructor key place => ?_
      rw [Function.update_of_ne]
      rintro rfl
      exact calls other destructor isThread place
  · intro other
    simp only [TssState.goes_exit]
    refine (stores.exits other).other (fun _ _ => rfl) fun key nonzero live _ => ?_
    rw [Function.update_of_ne]
    rintro rfl
    exact nonzero (loaded live)
  · exact stores.goes_alive notIdle
  · intro first second one two key isFirst isSecond
    exact stores.single first second one two key (ended isFirst).2 (ended isSecond).2

theorem store (stores : Stores state keys) {destructor : Word} {slot : Nat}
    (isAt : (state.thread thread).call = .store destructor slot) :
    Stores { state.goes thread .idle with
      map := Function.update state.map slot { state.map slot with destructor := destructor } } keys := by
  have ok := stores.calls thread
  rw [isAt] at ok
  obtain ⟨bound, live, zero⟩ := ok
  refine stores.finish bound rfl (fun given isLive => ?_) (fun dead => ?_) (fun key place => ?_)
    (by simp [isAt]) (fun other given different place => ?_) (fun _ => zero)
  · exact Option.some.inj (live.symm.trans isLive)
  · rw [live] at dead
    cases dead
  · rw [isAt] at place
    rcases place with ⟨_, same⟩ | same
    · cases same
      rfl
    · cases same
  · exact different (stores.single other thread given destructor slot place isAt)

theorem clear (stores : Stores state keys) {slot : Nat}
    (isAt : (state.thread thread).call = .clearDestructor slot) :
    Stores { state.goes thread .idle with
      map := Function.update state.map slot { state.map slot with destructor := 0 } } keys := by
  have ok := stores.calls thread
  rw [isAt] at ok
  obtain ⟨bound, dead⟩ := ok
  have notLive {claim : Prop} {destructor : Word} (live : keys.live slot = some destructor) : claim := by
    rw [dead] at live
    cases live
  refine stores.finish bound rfl (fun _ live => notLive live) (fun _ => rfl) (fun key place => ?_)
    (by simp [isAt]) (fun other given _ place => ?_) (fun live => ?_)
  · rw [isAt] at place
    rcases place with ⟨_, same⟩ | same
    · cases same
    · cases same
      rfl
  · have storing := stores.calls other
    rw [place] at storing
    exact notLive storing.2.1
  · rw [dead] at live
    cases live

theorem free (stores : Stores state keys) {slot : Nat}
    (isAt : (state.thread thread).call = .clearUsed slot)
    (clean : ∀ other, ¬ (state.thread other).Busy slot) :
    Stores { state.goes thread (.clearDestructor slot) with
        map := Function.update state.map slot { state.map slot with used := false } }
      { keys with live := Function.update keys.live slot none } := by
  have bound : slot < thrdKeysMax := by
    have ok := stores.calls thread
    rw [isAt] at ok
    exact ok
  have same {other : Fin count} (different : other ≠ thread) :=
    state.goes_of_ne (.clearDestructor slot) different
  have notBusy {other : Fin count} {number : Nat} (busy : (state.thread other).Busy number) :
      number ≠ slot := fun isSlot => clean other (isSlot ▸ busy)
  have elsewhere {other : Nat} (live : (Function.update keys.live slot none other).isSome) :
      other ≠ slot := by
    rintro rfl
    simp at live
  constructor
  · intro other isKey
    by_cases isSlot : other = slot
    · subst isSlot
      simp only [Function.update_self, Option.isSome_none]
    · simp only [Function.update_of_ne isSlot]
      exact stores.used other isKey
  · intro other live
    have isSlot := elsewhere live
    simp only [Function.update_of_ne isSlot] at live
    exact stores.bound other live
  · intro other destructor live
    have isSlot : other ≠ slot := elsewhere (Option.isSome_iff_exists.mpr ⟨_, live⟩)
    simp only [Function.update_of_ne isSlot] at live ⊢
    refine (stores.destructor other destructor live).imp_right fun ⟨storing, place⟩ => ⟨storing, ?_⟩
    rw [same]
    · exact place
    · rintro rfl
      simp [isAt] at place
  · intro other isKey dead
    by_cases isSlot : other = slot
    · subst isSlot
      exact Or.inr ⟨thread, state.goes_call_self thread _⟩
    · simp only [Function.update_of_ne isSlot] at dead ⊢
      refine (stores.cleared other isKey dead).imp_right fun ⟨clearing, place⟩ => ⟨clearing, ?_⟩
      rw [same]
      · exact place
      · rintro rfl
        simp [isAt] at place
  · intro other key running live
    have isSlot := elsewhere live
    simp only [TssState.goes_exit, TssState.goes_words, Function.update_of_ne isSlot] at running live ⊢
    exact stores.values other key running live
  · intro other
    simp only [TssState.goes_words]
    exact stores.marker other
  · intro other
    by_cases isThread : other = thread
    · subst isThread
      simp only [TssState.goes_call_self]
      exact ⟨bound, Function.update_self ..⟩
    · simp only [same isThread]
      exact stores.calls_slot (clean other) _ _
  · intro other
    simp only [TssState.goes_exit]
    exact stores.exits_slot (clean other) _ _
  · exact stores.goes_alive (by simp [isAt])
  · intro first second one two key isFirst isSecond
    have storing {other : Fin count} {given : Word}
        (place : ((state.goes thread (.clearDestructor slot)).thread other).call = .store given key) :
        (state.thread other).call = .store given key := by
      by_cases isThread : other = thread
      · subst isThread
        rw [TssState.goes_call_self] at place
        cases place
      · rw [same isThread] at place
        exact place
    exact stores.single first second one two key (storing isFirst) (storing isSecond)

def Follows (state next : TssState count) (action : TssAction count) (keys : Keys count) : Prop :=
  ∃ after, ((state.effect action).toList).foldlM Keys.apply keys = some after ∧ Stores next after

theorem follows_none {action : TssAction count} (none : state.effect action = none)
    (stores : Stores next keys) : Follows state next action keys := by
  refine ⟨keys, ?_, stores⟩
  rw [none]
  rfl

theorem follows_some {action : TssAction count} (effect : TssEffect count) {after : Keys count}
    (some : state.effect action = some effect) (applied : keys.apply effect = Option.some after)
    (stores : Stores next after) : Follows state next action keys := by
  refine ⟨after, ?_, stores⟩
  rw [some, Option.toList_some, List.foldlM_cons, applied]
  rfl

theorem advanceExit (stores : Stores state keys) (idle : (state.thread thread).call = .idle)
    (moved : state.advanceExit thread = some next) : Follows state next (.act thread) keys := by
  obtain ⟨place, isAt⟩ : ∃ place, (state.thread thread).exit = place := ⟨_, rfl⟩
  have ok := stores.exits thread
  have running : place ≠ .exited → (state.thread thread).exit ≠ .exited := isAt ▸ id
  simp only [isAt] at ok
  simp only [TssState.advanceExit, isAt] at moved
  cases place with
  | running | exited => cases moved
  | used iteration slot more =>
    cases moved
    refine follows_none (by simp only [TssState.effect, idle, isAt]) (stores.leaves idle (running (by simp)) ?_)
    split
    case isTrue used => exact ⟨ok, stores.used slot ok ▸ used⟩
    case isFalse => exact ExitPlace.next_ok iteration slot (more - 1)
  | destructor iteration slot more =>
    cases moved
    refine follows_none (by simp only [TssState.effect, idle, isAt]) (stores.leaves idle (running (by simp)) ?_)
    split
    case isTrue nonzero =>
      obtain ⟨bound, live⟩ := ok
      obtain ⟨destructor, live⟩ := Option.isSome_iff_exists.mp live
      refine ⟨bound, nonzero, live.trans (congrArg some ?_)⟩
      refine ((stores.destructor slot destructor live).resolve_right ?_).symm
      rintro ⟨storing, place⟩
      have ok := stores.calls storing
      rw [place] at ok
      exact nonzero ok.2.2
    case isFalse => exact ExitPlace.next_ok iteration slot (more - 1)
  | value iteration slot more =>
    obtain ⟨bound, nonzero, live⟩ := ok
    have isSome : (keys.live slot).isSome := Option.isSome_iff_exists.mpr ⟨_, live⟩
    have value := stores.values thread slot (running (by simp)) isSome
    simp only at moved
    split at moved
    case isTrue target =>
      cases moved
      refine follows_some (.took thread slot ((state.thread thread).words slot))
        (by simp only [TssState.effect, idle, isAt, if_pos target]) (if_pos ⟨isSome, value⟩) ?_
      exact stores.write slot 0 (bound.ne) (by simp [idle]) (by simp [idle]) (by simp [idle])
        (stores.calls thread) ⟨bound, nonzero, live⟩ (fun busy => absurd idle busy)
        fun _ => running (by simp)
    case isFalse empty =>
      cases moved
      exact follows_none (by simp only [TssState.effect, idle, isAt, if_neg empty])
        (stores.leaves idle (running (by simp)) (ExitPlace.next_ok iteration slot (more - 1)))
  | call iteration slot more target =>
    cases moved
    refine follows_some (.called slot (state.map slot).destructor)
      (by simp only [TssState.effect, idle, isAt]) (if_pos ok.2.2)
      (stores.leaves idle (running (by simp)) ok.1)
  | destructing iteration slot more =>
    cases moved
    exact follows_none (by simp only [TssState.effect, idle, isAt])
      (stores.leaves idle (running (by simp)) (ExitPlace.next_ok iteration slot more))

theorem advance (stores : Stores state keys) (clean : CleanSlots state (.act thread))
    (moved : state.advance thread = some next) : Follows state next (.act thread) keys := by
  obtain ⟨place, isAt⟩ : ∃ place, (state.thread thread).call = place := ⟨_, rfl⟩
  have ok := stores.calls thread
  have exit := stores.exits thread
  simp only [isAt] at ok
  simp only [CleanSlots, isAt] at clean
  have alive : place ≠ .idle → (state.thread thread).exit ≠ .exited := isAt ▸ stores.alive thread
  simp only [TssState.advance, isAt] at moved
  cases place with
  | idle => exact stores.advanceExit isAt moved
  | claim destructor slot =>
    simp only at moved
    split at moved
    case isTrue used =>
      cases moved
      refine follows_none (by simp only [TssState.effect, isAt, if_pos used])
        (stores.goes (by simp [isAt]) (by simp [isAt]) ?_ (fun _ => alive (by simp)) ?_)
      · intro _ _
        split <;> simp
      · split
        · assumption
        · trivial
    case isFalse free =>
      cases moved
      obtain ⟨created, applied, after⟩ := stores.create isAt (by simpa using free) (clean (by simpa using free))
      exact follows_some (.created slot destructor) (by simp only [TssState.effect, isAt, if_neg free])
        applied after
  | store destructor slot =>
    cases moved
    exact follows_none (by simp only [TssState.effect, isAt]) (stores.store isAt)
  | clearUsed slot =>
    cases moved
    exact follows_some (.deleted slot) (by simp only [TssState.effect, isAt]) rfl (stores.free isAt clean)
  | clearDestructor slot =>
    cases moved
    exact follows_none (by simp only [TssState.effect, isAt]) (stores.clear isAt)
  | checkGet slot =>
    cases moved
    have used := stores.used slot ok
    by_cases live : (keys.live slot).isSome
    · rw [live] at used
      refine follows_none (by simp only [TssState.effect, isAt, if_pos used]) ?_
      rw [if_pos used]
      exact stores.goes (by simp [isAt]) (by simp [isAt]) (by simp) (fun _ => alive (by simp)) ⟨ok, live⟩
    · have unused : ¬ (state.map slot).used := by rwa [used]
      refine follows_some (.got thread slot 0) (by simp only [TssState.effect, isAt, if_neg unused])
        (if_pos (if_neg live).symm) ?_
      rw [if_neg unused]
      exact stores.goes (by simp [isAt]) (by simp [isAt]) (by simp) (by simp) trivial
  | read slot =>
    cases moved
    have value := stores.values thread slot (alive (by simp)) ok.2
    refine follows_some (.got thread slot ((state.thread thread).words slot))
      (by simp only [TssState.effect, isAt]) (if_pos ?_)
      (stores.goes (by simp [isAt]) (by simp [isAt]) (by simp) (by simp) trivial)
    rw [if_pos ok.2]
    exact value
  | checkSet slot value =>
    cases moved
    refine follows_none (by simp only [TssState.effect, isAt])
      (stores.goes (by simp [isAt]) (by simp [isAt]) ?_ (fun _ => alive (by simp)) ?_)
    · intro _ _
      split <;> simp
    · split
      case isTrue used => exact ⟨ok, stores.used slot ok ▸ used⟩
      case isFalse => trivial
  | write slot value =>
    cases moved
    refine follows_some (.stored thread slot value) (by simp only [TssState.effect, isAt]) (if_pos ok.2) ?_
    exact stores.write slot value ok.1.ne (by simp [isAt]) (by simp [isAt]) (by simp) trivial
      (stores.exits thread) (by simp) id

theorem begin (stores : Stores state keys) {call : TssCall} (clean : CleanSlots state (.call thread call))
    (moved : state.begin thread call = some next) : Follows state next (.call thread call) keys := by
  simp only [TssState.begin] at moved
  split at moved
  case isFalse => cases moved
  case isTrue idle =>
    have goes (running : (state.thread thread).exit ≠ .exited) :
        Follows state (state.goes thread call.place) (.call thread call) keys := by
      have after := stores.goes (by simp [idle]) (by simp [idle]) (call.place_not_store)
        (fun _ => running) (call.place_ok clean)
      cases call with
      | tssGet key =>
        by_cases above : thrdKeysMax < key.toNat
        · refine follows_some (.got thread key.toNat 0) (if_pos above) (if_pos (if_neg fun live => ?_).symm)
            after
          exact absurd (stores.bound key.toNat live) (Nat.lt_asymm above)
        · exact follows_none (if_neg above) after
      | _ => exact follows_none rfl after
    split at moved
    case h_1 isRunning =>
      cases moved
      refine follows_none rfl (stores.leaves idle ?_ (by decide : 0 < thrdKeysMax))
      rw [isRunning]
      simp
    case h_2 isRunning _ =>
      cases moved
      exact goes (by simp [isRunning])
    case h_3 => cases moved
    case h_4 destructing _ =>
      cases moved
      exact goes (by simp [destructing])
    case h_5 => cases moved

theorem step (stores : Stores state keys) {action : TssAction count} (clean : CleanSlots state action)
    (moved : state.step action = some next) : Follows state next action keys := by
  cases action with
  | call thread call => exact stores.begin clean moved
  | act thread => exact stores.advance clean moved

theorem of_initial (isInitial : (tssSystem count).initial state) : Stores state {} := by
  obtain ⟨empty, idle⟩ := isInitial
  constructor
  · intro slot bound
    rw [empty slot bound]
    rfl
  · intro _ live
    cases live
  · intro _ _ live
    cases live
  · intro slot bound _
    rw [empty slot bound]
    exact Or.inl rfl
  · intro _ _ _ live
    cases live
  · intro thread
    rw [idle]
    rfl
  · intro thread
    rw [idle]
    trivial
  · intro thread
    rw [idle]
    trivial
  · intro thread busy
    rw [idle] at busy
    exact absurd rfl busy
  · intro first _ _ _ _ isFirst
    rw [idle] at isFirst
    cases isFirst

end Stores

/-- `tss_map` and the arrays of the threads are the map, and no thread is about to touch a word of its
`struct thrd` outside the array. -/
structure Represents (state : TssState count) (keys : Keys count) : Prop where
  used : ∀ slot, slot < thrdKeysMax → (state.map slot).used = (keys.live slot).isSome
  destructor : ∀ slot destructor, keys.live slot = some destructor →
    (state.map slot).destructor = destructor ∨ ∃ thread, (state.thread thread).call = .store destructor slot
  values : ∀ thread slot, (state.thread thread).exit ≠ .exited → (keys.live slot).isSome →
    (state.thread thread).words slot = keys.value thread slot
  inside : ∀ thread slot, (state.thread thread).call = .read slot ∨
    (∃ value, (state.thread thread).call = .write slot value) ∨
    (∃ iteration more, (state.thread thread).exit = .value iteration slot more) → slot < thrdKeysMax
  marker : ∀ thread, (state.thread thread).words thrdKeysMax = thrdMarker

theorem Stores.represents (stores : Stores state keys) : Represents state keys where
  used := stores.used
  destructor := stores.destructor
  values := stores.values
  marker := stores.marker
  inside := by
    intro thread slot touches
    have call := stores.calls thread
    have exit := stores.exits thread
    rcases touches with isAt | ⟨_, isAt⟩ | ⟨_, _, isAt⟩
    · rw [isAt] at call
      exact call.1
    · rw [isAt] at call
      exact call.1
    · rw [isAt] at exit
      exact exit.1

/-- While the slots are clean, the run is one of the map from threads and live keys to values. -/
theorem storage_refines {effects : List (TssEffect count)}
    (reached : (tssRecorded count).Guarded (fun recorded action => CleanSlots recorded.1 action)
      (state, effects)) :
    ∃ keys, Keys.replay effects = some keys ∧ Represents state keys := by
  have stores : ∃ keys, Keys.replay effects = some keys ∧ Stores state keys := by
    refine reached.invariant
      (motive := fun recorded => ∃ keys, Keys.replay recorded.2 = some keys ∧ Stores recorded.1 keys) ?_ ?_
    · rintro ⟨state, effects⟩ ⟨isInitial, rfl⟩
      exact ⟨{}, rfl, .of_initial isInitial⟩
    · rintro ⟨state, effects⟩ action recorded ⟨keys, replayed, stores⟩ clean moved
      obtain ⟨next, stepped, rfl⟩ := Option.map_eq_some_iff.mp moved
      obtain ⟨after, applied, stored⟩ := stores.step clean stepped
      exact ⟨after, (Keys.replay_append effects _ replayed).trans applied, stored⟩
  obtain ⟨keys, replayed, stores⟩ := stores
  exact ⟨keys, replayed, stores.represents⟩

theorem storage_refines_run : ∃ recorded : TssState 2 × List (TssEffect 2),
    (∃ keys, Keys.replay recorded.2 = some keys ∧ Represents recorded.1 keys) ∧
      .got 0 0 5 ∈ recorded.2 ∧ .got 1 0 0 ∈ recorded.2 ∧ .called 0 7 ∈ recorded.2 := by
  obtain ⟨recorded, reached, check⟩ := @System.exists_of_run _ _ (tssRecorded 2)
    (fun recorded action => CleanSlots recorded.1 action) _ ({}, []) ⟨⟨fun _ _ => rfl, fun _ => rfl⟩, rfl⟩
    ([.call 0 (.tssCreate 7), .act 0, .act 0, .call 0 (.tssSet 0 5), .act 0, .act 0,
      .call 1 (.tssGet 0), .act 1, .act 1, .call 0 (.tssGet 0), .act 0, .act 0, .call 0 .thrdExit,
      .act 0, .act 0, .act 0, .act 0])
    (fun recorded => .got 0 0 5 ∈ recorded.2 ∧ .got 1 0 0 ∈ recorded.2 ∧ .called 0 7 ∈ recorded.2)
    (fun _ => inferInstanceAs (Decidable (_ ∧ _ ∧ _))) (by decide)
  exact ⟨recorded, storage_refines reached, check⟩

theorem not_storage_refines : ¬ ∀ state effects, (tssRecorded 1).Reachable (state, effects) →
    ∃ keys, Keys.replay effects = some keys ∧ Represents state keys := by
  intro always
  obtain ⟨recorded, reached, check⟩ := @System.exists_of_run _ _ (tssRecorded 1) (fun _ _ => True) _
    ({}, []) ⟨⟨fun _ _ => rfl, fun _ => rfl⟩, rfl⟩
    ([.call 0 (.tssCreate 0), .act 0, .act 0, .call 0 (.tssSet 0 5), .act 0, .act 0,
      .call 0 (.tssDelete 0), .act 0, .act 0, .call 0 (.tssCreate 0), .act 0, .act 0,
      .call 0 (.tssGet 0), .act 0, .act 0])
    (fun recorded => (Keys.replay recorded.2).isNone) (fun _ => inferInstanceAs (Decidable (_ = _)))
    (by decide)
  obtain ⟨keys, replayed, _⟩ := always _ _ reached
  rw [replayed] at check
  cases check

end PicoToolkit
