import PicoToolkit.Library.Channel
import PicoToolkit.Scheduler.State

/-!
The ring buffers of the real-time terminal, access by access.  The size and the address of a ring do not
change while it is in use; its flags and the active terminal change only under the lock, and are data of
the end that writes.  `memcpy` is one access for each byte.
-/

namespace PicoToolkit.Rtt

open Channel

abbrev Byte : Type := BitVec 8

def rttModeNoBlockSkip : Word := 0
def rttModeNoBlockTrim : Word := 1
def rttModeBlockIfFifoFull : Word := 2
def rttModeMask : Word := 3

def minWord (first second : Word) : Word := if first < second then first else second

def rdOff : Code Byte Word := do
  let position ← Code.act .front
  return BitVec.ofNat 32 position

def wrOff : Code Byte Word := do
  let position ← Code.act .back
  return BitVec.ofNat 32 position

def setRdOff (offset : Word) : Code Byte Unit := Code.act (.setFront offset.toNat)

def setWrOff (offset : Word) : Code Byte Unit := Code.act (.setBack offset.toNat)

def storeBytes (offset : Word) : List Byte → Code Byte Unit
  | [] => pure ()
  | byte :: rest => do
      Code.act (.write offset.toNat byte)
      storeBytes (offset + 1) rest

def memcpyTo (offset : Word) (source : List Byte) (numBytes : Word) : Code Byte Unit :=
  storeBytes offset (source.take numBytes.toNat)

def memcpyFrom (offset : Word) : Nat → Code Byte (List Byte)
  | 0 => pure []
  | numBytes + 1 => do
      let byte ← Code.act (.read offset.toNat)
      let rest ← memcpyFrom (offset + 1) numBytes
      return byte :: rest

section Writer

variable (sizeOfBuffer : Word)

/-- How many bytes a round of `_WriteBlocking` writes: what is free, up to the end of the buffer. -/
def numBytesToWrite (readOffset offset numBytes : Word) : Word :=
  let avail :=
    if readOffset > offset then readOffset - offset - 1
    else sizeOfBuffer - (offset - readOffset + 1)
  minWord (minWord avail (sizeOfBuffer - offset)) numBytes

def writeChunk (offset : Word) (buffer : List Byte) (numBytes : Word) : Code Byte Word := do
  memcpyTo offset buffer numBytes
  let next := if offset + numBytes = sizeOfBuffer then 0 else offset + numBytes
  setWrOff next
  return next

def writeBlockingLoop : Nat → Word → Word → List Byte → Word → Code Byte Word
  | 0, _, _, _, _ => .spin
  | rounds + 1, numBytesWritten, offset, buffer, numBytes => do
      let readOffset ← rdOff
      let chunk := numBytesToWrite sizeOfBuffer readOffset offset numBytes
      let next ← writeChunk sizeOfBuffer offset buffer chunk
      if numBytes - chunk = 0 then return numBytesWritten + chunk
      else
        writeBlockingLoop rounds (numBytesWritten + chunk) next (buffer.drop chunk.toNat)
          (numBytes - chunk)

def writeBlocking (rounds : Nat) (buffer : List Byte) (numBytes : Word) : Code Byte Word := do
  let offset ← wrOff
  writeBlockingLoop sizeOfBuffer rounds 0 offset buffer numBytes

def writeNoCheck (data : List Byte) (numBytes : Word) : Code Byte Unit := do
  let offset ← wrOff
  let rem := sizeOfBuffer - offset
  if rem > numBytes then do
    memcpyTo offset data numBytes
    setWrOff (offset + numBytes)
  else do
    memcpyTo offset data rem
    let numBytesAtOnce := numBytes - rem
    memcpyTo 0 (data.drop rem.toNat) numBytesAtOnce
    setWrOff numBytesAtOnce

def getAvailWriteSpace : Code Byte Word := do
  let readOffset ← rdOff
  let offset ← wrOff
  if readOffset ≤ offset then return sizeOfBuffer - 1 - offset + readOffset
  else return readOffset - offset - 1

/-- `SEGGER_RTT_WriteNoLock`, which `SEGGER_RTT_Write` calls under the lock; on a down buffer it is
`SEGGER_RTT_WriteDownBufferNoLock`. -/
def writeNoLock (flags : Word) (rounds : Nat) (data : List Byte) (numBytes : Word) :
    Code Byte Word :=
  if flags = rttModeNoBlockSkip then do
    let avail ← getAvailWriteSpace sizeOfBuffer
    if avail < numBytes then return 0
    else do
      writeNoCheck sizeOfBuffer data numBytes
      return numBytes
  else if flags = rttModeNoBlockTrim then do
    let avail ← getAvailWriteSpace sizeOfBuffer
    let status := if avail < numBytes then avail else numBytes
    writeNoCheck sizeOfBuffer data status
    return status
  else if flags = rttModeBlockIfFifoFull then writeBlocking sizeOfBuffer rounds data numBytes
  else return 0

def writeSkipNoLock (data : List Byte) (numBytes : Word) : Code Byte Word := do
  let readOffset ← rdOff
  let offset ← wrOff
  if readOffset ≤ offset then do
    let avail := sizeOfBuffer - offset - 1
    if avail ≥ numBytes then do
      memcpyTo offset data numBytes
      setWrOff (offset + numBytes)
      return 1
    else if avail + readOffset ≥ numBytes then do
      let rem := sizeOfBuffer - offset
      memcpyTo offset data rem
      let numBytes := numBytes - rem
      if numBytes ≠ 0 then do
        memcpyTo 0 (data.drop rem.toNat) numBytes
        setWrOff numBytes
        return 1
      else do
        setWrOff numBytes
        return 1
    else return 0
  else if readOffset - offset - 1 ≥ numBytes then do
    memcpyTo offset data numBytes
    setWrOff (offset + numBytes)
    return 1
  else return 0

def nextOffset (offset : Word) : Word :=
  if offset + 1 = sizeOfBuffer then 0 else offset + 1

def storeIfFits (byte : Byte) (next : Word) : Code Byte Word := do
  let readOffset ← rdOff
  if next ≠ readOffset then do
    let offset ← wrOff
    Code.act (.write offset.toNat byte)
    setWrOff next
    return 1
  else return 0

def putCharSkipNoLock (byte : Byte) : Code Byte Word := do
  let offset ← wrOff
  storeIfFits byte (nextOffset sizeOfBuffer offset)

def waitForSpace (next : Word) : Nat → Code Byte Unit
  | 0 => .spin
  | rounds + 1 => do
      let readOffset ← rdOff
      if next = readOffset then waitForSpace next rounds else return

def putChar (flags : Word) (rounds : Nat) (byte : Byte) : Code Byte Word := do
  let offset ← wrOff
  let next := nextOffset sizeOfBuffer offset
  if flags = rttModeBlockIfFifoFull then do
    waitForSpace next rounds
    storeIfFits byte next
  else storeIfFits byte next

/-- How many bytes `SEGGER_RTT_WriteWithOverwriteNoLock` takes to be free. -/
def overwriteAvail (offset readOffset : Word) : Word :=
  if offset = readOffset then sizeOfBuffer - 1
  else if offset < readOffset then readOffset - offset - 1
  else readOffset - offset - 1 + sizeOfBuffer

def wrapRdOff : Nat → Code Byte Unit
  | 0 => .spin
  | rounds + 1 => do
      let readOffset ← rdOff
      if readOffset ≥ sizeOfBuffer then do
        setRdOff (readOffset - sizeOfBuffer)
        wrapRdOff rounds
      else return

def overwriteLoop : Nat → Word → List Byte → Word → Code Byte Unit
  | 0, _, _, _ => .spin
  | rounds + 1, avail, data, numBytes => do
      let offset ← wrOff
      if avail > numBytes then do
        memcpyTo offset data numBytes
        setWrOff (offset + numBytes)
      else do
        memcpyTo offset data avail
        setWrOff 0
        if numBytes - avail = 0 then return
        else overwriteLoop rounds (sizeOfBuffer - 1) (data.drop avail.toNat) (numBytes - avail)

def writeWithOverwriteNoLock (rounds : Nat) (data : List Byte) (numBytes : Word) :
    Code Byte Unit := do
  let offset ← wrOff
  let readOffset ← rdOff
  let avail := overwriteAvail sizeOfBuffer offset readOffset
  if numBytes > avail then do
    setRdOff (readOffset + (numBytes - avail))
    wrapRdOff sizeOfBuffer rounds
    overwriteLoop sizeOfBuffer rounds (sizeOfBuffer - offset) data numBytes
  else overwriteLoop sizeOfBuffer rounds (sizeOfBuffer - offset) data numBytes

/-- `_aTerminalId`. -/
def aTerminalId : List Byte :=
  [0x30, 0x31, 0x32, 0x33, 0x34, 0x35, 0x36, 0x37, 0x38, 0x39, 0x41, 0x42, 0x43, 0x44, 0x45, 0x46]

def terminalSwitch (terminalId : Byte) : List Byte := [0xff, aTerminalId.getD terminalId.toNat 0]

def postTerminalSwitch (rounds : Nat) (terminalId : Byte) : Code Byte Word :=
  writeBlocking sizeOfBuffer rounds (terminalSwitch terminalId) 2

def setTerminal (flags : Word) (rounds : Nat) (activeTerminal terminalId : Byte) :
    Code Byte (Int × Byte) :=
  if terminalId.toNat < aTerminalId.length then
    if flags &&& rttModeMask = rttModeBlockIfFifoFull then do
      let _ ← writeBlocking sizeOfBuffer rounds (terminalSwitch terminalId) 2
      return (0, terminalId)
    else do
      let avail ← getAvailWriteSpace sizeOfBuffer
      if avail ≥ 2 then do
        writeNoCheck sizeOfBuffer (terminalSwitch terminalId) 2
        return (0, terminalId)
      else return (-1, activeTerminal)
  else return (-1, activeTerminal)

def writeToTerminal (rounds : Nat) (activeTerminal terminalId : Byte) (string : List Byte)
    (numBytes : Word) : Code Byte Int := do
  let _ ← postTerminalSwitch sizeOfBuffer rounds terminalId
  let written ← writeBlocking sizeOfBuffer rounds string numBytes
  let _ ← postTerminalSwitch sizeOfBuffer rounds activeTerminal
  return written.toInt

def terminalOut (flags : Word) (rounds : Nat) (activeTerminal terminalId : Byte)
    (string : List Byte) : Code Byte Int :=
  if terminalId.toNat < aTerminalId.length then do
    let fragLen := BitVec.ofNat 32 string.length
    let avail ← getAvailWriteSpace sizeOfBuffer
    if flags &&& rttModeMask = rttModeNoBlockSkip then
      if avail < fragLen + 4 then return 0
      else writeToTerminal sizeOfBuffer rounds activeTerminal terminalId string fragLen
    else if flags &&& rttModeMask = rttModeNoBlockTrim then
      if avail < 4 then return -1
      else
        writeToTerminal sizeOfBuffer rounds activeTerminal terminalId string
          (if fragLen < avail - 4 then fragLen else avail - 4)
    else if flags &&& rttModeMask = rttModeBlockIfFifoFull then
      writeToTerminal sizeOfBuffer rounds activeTerminal terminalId string fragLen
    else return -1
  else return -1

end Writer

section Reader

variable (sizeOfBuffer : Word)

/-- Read from the read position up to the end of the buffer, if the data goes on at its start: the
offset afterwards, how many bytes are read, and the bytes. -/
def readToEnd (readOffset offset bufferSize : Word) : Code Byte (Word × Word × List Byte) :=
  if readOffset > offset then do
    let numBytesRem := minWord (sizeOfBuffer - readOffset) bufferSize
    let bytes ← memcpyFrom readOffset numBytesRem.toNat
    let next := readOffset + numBytesRem
    return (if next = sizeOfBuffer then 0 else next, numBytesRem, bytes)
  else return (readOffset, 0, [])

def readRemaining (offset bufferSize : Word) :
    Word × Word × List Byte → Code Byte (Word × Word × List Byte)
  | (next, numBytesRead, bytes) =>
      let numBytesRem := minWord (offset - next) (bufferSize - numBytesRead)
      if numBytesRem > 0 then do
        let more ← memcpyFrom next numBytesRem.toNat
        return (next + numBytesRem, numBytesRead + numBytesRem, bytes ++ more)
      else return (next, numBytesRead, bytes)

/-- `SEGGER_RTT_ReadUpBufferNoLock` and, on a down buffer, `SEGGER_RTT_ReadNoLock`: how many bytes are
read, and the bytes. -/
def readNoLock (bufferSize : Word) : Code Byte (Word × List Byte) := do
  let readOffset ← rdOff
  let offset ← wrOff
  let first ← readToEnd sizeOfBuffer readOffset offset bufferSize
  let (next, numBytesRead, bytes) ← readRemaining offset bufferSize first
  if numBytesRead ≠ 0 then do
    setRdOff next
    return (numBytesRead, bytes)
  else return (numBytesRead, bytes)

def getKey : Code Byte Int := do
  let (numBytesRead, bytes) ← readNoLock sizeOfBuffer 1
  if numBytesRead = 1 then return (bytes.headD 0).toNat else return -1

def waitKey : Nat → Code Byte Int
  | 0 => .spin
  | rounds + 1 => do
      let key ← getKey sizeOfBuffer
      if key < 0 then waitKey rounds else return key

def hasKey : Code Byte Int := do
  let readOffset ← rdOff
  let offset ← wrOff
  if readOffset ≠ offset then return 1 else return 0

def hasData : Code Byte Word := do
  let offset ← wrOff
  let readOffset ← rdOff
  return offset - readOffset

/-- `SEGGER_RTT_HasDataUp`. -/
def hasDataUp : Code Byte Word := do
  let readOffset ← rdOff
  let offset ← wrOff
  return offset - readOffset

def getBytesInBuffer : Code Byte Word := do
  let readOffset ← rdOff
  let offset ← wrOff
  if readOffset ≤ offset then return offset - readOffset
  else return sizeOfBuffer - (offset - readOffset)

end Reader

end PicoToolkit.Rtt
