import PicoToolkit.Library.Exceptions

/-!
The exception handlers that are written in assembler: the service calls and PendSV, with the function that
finds the data of the core.  Each is the list of its instructions; the labels are the numbers of the source.
-/

namespace PicoToolkit.Port

open Thumb

structure Symbols where
  aeabiReadCls : Word
  coreData : Word
  core0 : Word
  core1 : Word
  currentTask : Word
  schedulerInitialFrame : Word
  schedulerSwitch : Word
  svcVector : Word
  schedulerSvcVector : Word
  switch_apart : schedulerSwitch ≠ aeabiReadCls
  aligned : ∀ address ∈ [coreData, core0, core1, currentTask, schedulerInitialFrame, svcVector,
    schedulerSvcVector], Aligned address

def cpuid : Word := 0xd0000000

/-- `SCB->ICSR` -/
def icsr : Word := 0xe000ed04

def pendSvSet : Word := 0x10000000

variable (symbols : Symbols)

/-- `__aeabi_read_cls` -/
def aeabiReadCls : List Instr :=
  [.literal .r0 cpuid,
    .ldr .r0 .r0 0,
    .cmpImm .r0 0,
    .beq 0,
    .literal .r0 symbols.core1,
    .bx .lr,
    .label 0,
    .literal .r0 symbols.core0,
    .bx .lr]

/-- The instructions that the handlers share: the registers go below `r0`, which points to them then. -/
def saveFrame : List Instr :=
  [.subImm .r0 .r0 40,
    .stm .r0 [.r2, .r3, .r4, .r5, .r6, .r7],
    .mov .r4 .r8,
    .mov .r5 .r9,
    .mov .r6 .r10,
    .mov .r7 .r11,
    .stm .r0 [.r4, .r5, .r6, .r7],
    .subImm .r0 .r0 40]

/-- `SVC_Handler` -/
def svcHandler : List Instr :=
  [.movImm .r0 4,
    .mov .r1 .lr,
    .tst .r0 .r1,
    .bne 0,
    .mrs .r1 .msp,
    .b 1,
    .label 0,
    .mrs .r1 .psp,
    .label 1,
    .ldr .r0 .r1 24,
    .subImm .r0 .r0 2,
    .ldrb .r0 .r0,
    .lsl .r3 .r0 2,
    .literal .r2 symbols.svcVector,
    .ldrReg .r2 .r2 .r3,
    .bx .r2]

/-- `SVC_Handler_0` -/
def svcHandler0 : List Instr :=
  ([.mov .r0 .sp,
    .mov .r2 .lr,
    .mrs .r3 .control] : List Instr) ++
  saveFrame ++
  ([.mov .sp .r0,
    .literal .r0 symbols.aeabiReadCls,
    .blx .r0,
    .literal .r1 symbols.schedulerInitialFrame,
    .literal .r3 symbols.coreData,
    .sub .r1 .r1 .r3,
    .add .r0 .r0 .r1,
    .mov .r1 .sp,
    .str .r1 .r0 0,
    .literal .r1 icsr,
    .literal .r3 pendSvSet,
    .str .r3 .r1 0,
    .barrier,
    .bx .r2] : List Instr)

def schedulerSvcHandler : List Instr :=
  ([.lsl .r2 .r0 2,
    .mov .r0 .r1,
    .literal .r1 symbols.schedulerSvcVector,
    .ldrReg .r1 .r1 .r2,
    .movImm .r2 2,
    .tst .r1 .r2,
    .bne 0,
    .bx .r1,
    .label 0,
    .bic .r1 .r2,
    .movImm .r3 4,
    .mov .r2 .lr,
    .tst .r3 .r2,
    .bne 1,
    .subSp 40,
    .label 1,
    .mrs .r3 .control] : List Instr) ++
  saveFrame ++
  ([.bx .r1] : List Instr)

/-- The part of `PendSV_Handler` behind the call of `scheduler_switch`. -/
def restoreFrame : List Instr :=
  [.addImm .r0 .r0 24,
    .ldm .r0 [.r4, .r5, .r6, .r7],
    .mov .r8 .r4,
    .mov .r9 .r5,
    .mov .r10 .r6,
    .mov .r11 .r7,
    .subImm .r0 .r0 40,
    .ldm .r0 [.r2, .r3, .r4, .r5, .r6, .r7],
    .addImm .r0 .r0 16,
    .msr .control .r3,
    .movImm .r1 4,
    .tst .r1 .r2,
    .bne 3,
    .msr .msp .r0,
    .b 4,
    .label 3,
    .msr .psp .r0,
    .label 4,
    .barrier,
    .bx .r2]

/-- `PendSV_Handler` -/
def pendSvHandler : List Instr :=
  ([.mov .r1 .lr,
    .literal .r0 symbols.aeabiReadCls,
    .blx .r0,
    .mov .lr .r1,
    .literal .r1 symbols.currentTask,
    .literal .r2 symbols.coreData,
    .sub .r1 .r1 .r2,
    .ldrReg .r0 .r0 .r1,
    .cmpImm .r0 0,
    .beq 2,
    .movImm .r0 4,
    .mov .r2 .lr,
    .tst .r0 .r2,
    .beq 0,
    .mrs .r0 .psp,
    .b 1,
    .label 0,
    .mrs .r0 .msp,
    .subSp 40,
    .label 1,
    .mrs .r3 .control] : List Instr) ++
  saveFrame ++
  ([.label 2,
    .literal .r1 symbols.schedulerSwitch,
    .blx .r1] : List Instr) ++
  restoreFrame

def fuel : Nat := 64

def callReadCls (machine : Machine) : Option Machine :=
  match run (fun _ => none) 0 (aeabiReadCls symbols) fuel (aeabiReadCls symbols) machine with
  | some (.leave target machine') => if target = machine.reg .lr then some machine' else none
  | _ => none

def known (address : Word) : Option (Machine → Option Machine) :=
  if address = symbols.aeabiReadCls then some (callReadCls symbols) else none

def runHandler (link : Word) (code : List Instr) (machine : Machine) : Option Outcome :=
  run (known symbols) link code fuel code machine

def Symbols.clsOf (number : Word) : Word := if number = 0 then symbols.core0 else symbols.core1

def Symbols.cls (core : Fin 2) : Word := symbols.clsOf (BitVec.ofNat 32 core)

/-- The address of a `core_local` variable in the data of a core. -/
def Symbols.clsDatum (core : Fin 2) (datum : Word) : Word := symbols.cls core + (datum - symbols.coreData)

end PicoToolkit.Port
