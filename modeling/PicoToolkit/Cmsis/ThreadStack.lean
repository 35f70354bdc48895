import PicoToolkit.Scheduler.StackLayout

/-!
The stacks that `osThreadNew` hands to `scheduler_create`: which sizes it accepts, and for which of them
the parts of the first layout fit.
-/

namespace PicoToolkit.StackLayout

def sizeofRtosThread : Nat := 232
def rtosDefaultStackSize : Nat := 1024

def osThreadMinimumStackSize (tls : TlsLayout) : Nat :=
  sizeofTask + tls.size + sizeofSchedulerFrame + 8

structure ThreadAttr where
  cbMem : Word
  stackMem : Word
  cbSize : Word
  stackSize : Word

def ThreadAttr.requested (attr : ThreadAttr) : Nat :=
  if attr.stackSize = 0 then rtosDefaultStackSize else attr.stackSize.toNat

/-- `_rtos2_alloc_thread`: the size of the block with the stack of a dynamic thread at its end. -/
def rtos2AllocThread (stackSize : Nat) : Nat := (sizeofRtosThread + stackSize) % 2 ^ 32

def osThreadNewStackSize (tls : TlsLayout) (attr : ThreadAttr) : Option Nat :=
  if attr.cbMem = 0 ∧ attr.stackMem = 0 then
    some ((osThreadMinimumStackSize tls + attr.requested) % 2 ^ 32)
  else if attr.cbMem ≠ 0 ∧ attr.stackMem ≠ 0 then
    if attr.cbSize.toNat < sizeofRtosThread ∨ attr.stackSize.toNat < osThreadMinimumStackSize tls then
      none
    else some attr.stackSize.toNat
  else none

theorem minimum_le_iff {tls : TlsLayout} {attr : ThreadAttr} {size : Nat}
    (accepted : osThreadNewStackSize tls attr = some size) :
    osThreadMinimumStackSize tls ≤ size ↔
      (attr.cbMem = 0 → osThreadMinimumStackSize tls + attr.requested < 2 ^ 32) := by
  have word : attr.requested < 2 ^ 32 := by
    unfold ThreadAttr.requested rtosDefaultStackSize
    split
    · omega
    · exact attr.stackSize.isLt
  have positive : 0 < osThreadMinimumStackSize tls := by
    unfold osThreadMinimumStackSize
    omega
  rw [osThreadNewStackSize] at accepted
  split at accepted
  next dynamic =>
    obtain rfl := Option.some_inj.mp accepted
    constructor
    · intro enough _
      by_contra overflow
      have small : osThreadMinimumStackSize tls < 2 ^ 32 :=
        lt_of_le_of_lt enough (Nat.mod_lt _ (by omega))
      omega
    · intro fits
      rw [Nat.mod_eq_of_lt (fits dynamic.1)]
      omega
  next =>
    split at accepted
    next static =>
      split at accepted
      next => cases accepted
      next large =>
        obtain rfl := Option.some_inj.mp accepted
        exact ⟨fun _ null => absurd null static.1, fun _ => by omega⟩
    next => cases accepted

/-- The descriptor that `osThreadNew` assembles; it leaves the affinity as the memory held it. -/
def osThreadDescriptor (entryPoint exitHandler thread priority affinity : Word) (suspended : Bool) :
    TaskDescriptor where
  entryPoint := entryPoint
  exitHandler := exitHandler
  context := thread
  flags := schedulerTaskStackCheck ||| (if suspended then schedulerCreateSuspended else 0)
  priority := priority
  affinity := affinity

theorem osThreadDescriptor_plain (entryPoint exitHandler thread priority affinity : Word)
    (suspended : Bool) :
    Plain (osThreadDescriptor entryPoint exitHandler thread priority affinity suspended) := by
  cases suspended <;>
    exact ⟨by simp only [osThreadDescriptor]; decide, by simp only [osThreadDescriptor]; decide,
      by simp only [osThreadDescriptor]; decide⟩

theorem extent_le_iff (tls : TlsLayout) :
    tls.extent ≤ tls.size ↔ tls.tbssSize = 0 ∨ tls.tbssOffset = tls.tdata.length := by
  have ordered := tls.ordered
  unfold TlsLayout.extent TlsLayout.size
  split <;> omega

theorem osThreadNewStackSize_lt {tls : TlsLayout} {attr : ThreadAttr} {size : Nat}
    (accepted : osThreadNewStackSize tls attr = some size) : size < 2 ^ 32 := by
  rw [osThreadNewStackSize] at accepted
  split at accepted
  · obtain rfl := Option.some_inj.mp accepted
    exact Nat.mod_lt _ (by omega)
  · split at accepted
    · split at accepted
      · cases accepted
      · obtain rfl := Option.some_inj.mp accepted
        exact attr.stackSize.isLt
    · cases accepted

/-- A stack behind its control block in one block of memory ends before the end of the memory only if the
sum of `_rtos2_alloc_thread` does not overflow, and only then is it in that block. -/
theorem rtos2AllocThread_iff {block size : Nat} (present : 0 < block) (bound : size < 2 ^ 32)
    (room : block + rtos2AllocThread size < 2 ^ 32) :
    block + sizeofRtosThread + size < 2 ^ 32 ↔
      sizeofRtosThread + size ≤ rtos2AllocThread size := by
  simp only [rtos2AllocThread, sizeofRtosThread] at room ⊢
  omega

/-- From the minimum size on, only the end of the memory, the roundings of the frame and of the fill loop,
and a gap in the TLS data, can go wrong. -/
theorem fits_iff {tls : TlsLayout} {stack size : Nat} (aligned : stack % 8 = 0)
    (words : tls.size % 4 = 0) (enough : osThreadMinimumStackSize tls ≤ size) :
    Fits tls stack size ↔
      stack + size < 2 ^ 32 ∧ size % 4 = 0 ∧
        ¬(tls.size % 8 = 4 ∧ size = osThreadMinimumStackSize tls) ∧
        (tls.tbssSize = 0 ∨ tls.tbssOffset = tls.tdata.length) := by
  rw [← extent_le_iff]
  simp only [osThreadMinimumStackSize, sizeofTask, sizeofSchedulerFrame] at enough ⊢
  have frame : guardPointer tls stack + 8 ≤ framePointer stack size ↔
      stack + 88 + tls.size + 8 ≤ (stack + size - 72) / 8 * 8 := by
    simp only [guardPointer, framePointer, roundedTask, sizeofTask, sizeofSchedulerFrame]
  constructor
  · rintro ⟨below, whole, above, data⟩
    rw [frame] at above
    exact ⟨below, whole, by omega, data⟩
  · rintro ⟨below, whole, rounding, data⟩
    exact ⟨below, whole, by rw [frame]; omega, data⟩

/-- A stack that `osThreadNew` accepts is laid out as it has to be exactly if the sum of its size does not
overflow, it ends before the end of the memory, its size is a multiple of four, the least size is not used
with an odd number of TLS words, and the TLS data have no gap. -/
theorem sound_iff {tls : TlsLayout} {attr : ThreadAttr} {stack size : Nat}
    (aligned : stack % 8 = 0) (words : tls.size % 4 = 0)
    (accepted : osThreadNewStackSize tls attr = some size)
    (entryPoint exitHandler thread priority affinity : Word) (suspended : Bool) :
    Sound tls stack size
        (osThreadDescriptor entryPoint exitHandler thread priority affinity suspended) ↔
      (attr.cbMem = 0 → osThreadMinimumStackSize tls + attr.requested < 2 ^ 32) ∧
        stack + size < 2 ^ 32 ∧ size % 4 = 0 ∧
        ¬(tls.size % 8 = 4 ∧ size = osThreadMinimumStackSize tls) ∧
        (tls.tbssSize = 0 ∨ tls.tbssOffset = tls.tdata.length) := by
  have plain := osThreadDescriptor_plain entryPoint exitHandler thread priority affinity suspended
  have rounded : roundedTask + tls.size + sizeofSchedulerFrame + 8 = osThreadMinimumStackSize tls :=
    rfl
  rw [← minimum_le_iff accepted]
  constructor
  · intro sound
    have enough := sound.enough plain
    have fits := sound.fits plain (by omega) (osThreadNewStackSize_lt accepted)
    exact ⟨enough, (fits_iff aligned words enough).mp fits⟩
  · rintro ⟨enough, fits⟩
    exact ((fits_iff aligned words enough).mpr fits).sound plain words

def oneWord : TlsLayout := ⟨[1, 0, 0, 0], 4, 0, by decide⟩

theorem sound_iff_larger :
    osThreadNewStackSize oneWord ⟨0x20010000, 0x20000000, 232, 176⟩ = some 176 ∧
      Sound oneWord 0x20000000 176 (osThreadDescriptor 0x10000101 0x10000201 0x20010000 32 0 false) :=
  ⟨by decide, (sound_iff (by decide) (by decide) (by decide : osThreadNewStackSize oneWord
    ⟨0x20010000, 0x20000000, 232, 176⟩ = some 176) _ _ _ _ _ _).mpr
      ⟨by decide, by decide, by decide, by decide, .inl rfl⟩⟩

/-- With one word of TLS data, a stack of the least size, which `osThreadNew` accepts, has its frame on the
second guard word. -/
theorem not_sound : ¬∀ (tls : TlsLayout) (attr : ThreadAttr) (stack size : Nat),
    0 < stack → stack % 8 = 0 → tls.size % 4 = 0 → osThreadNewStackSize tls attr = some size →
    osThreadMinimumStackSize tls ≤ size → stack + size < 2 ^ 32 →
    ∀ (entryPoint exitHandler thread priority affinity : Word) (suspended : Bool),
      Sound tls stack size
        (osThreadDescriptor entryPoint exitHandler thread priority affinity suspended) := by
  intro claimed
  have sound := claimed oneWord ⟨0x20010000, 0x20000000, 232, 172⟩ 0x20000000 172 (by decide)
    (by decide) (by decide) (by decide) (by decide) (by decide) 0x10000101 0x10000201 0x20010000 32 0
    false
  have fits := sound.fits (osThreadDescriptor_plain _ _ _ _ _ _) (by decide) (by decide)
  exact absurd fits.frame (by decide)

end PicoToolkit.StackLayout
