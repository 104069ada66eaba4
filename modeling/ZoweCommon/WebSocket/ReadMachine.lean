import Mathlib.Algebra.Ring.Int.Defs
import Mathlib.Algebra.Ring.Nat
import Mathlib.Data.List.Basic
import ZoweCommon.Basic.CString
import ZoweCommon.Basic.Exec

/-! Frames of a web socket: how they are written, and the machine that reads them. The byte order is
that of the network. Allocation succeeds, and what goes to the log is left out. -/
namespace ZoweCommon
namespace WebSocket

def INT_MAX : ℕ := 2 ^ 31 - 1

/-- The bytes up to `pos`, and for how many there is room. -/
structure BigBuffer where
  data : List Byte
  size : ℕ

def makeBigBuffer (initialSize : ℕ) : BigBuffer := ⟨[], initialSize⟩

/-- A buffer that is too small grows once. -/
def writeToBigBuffer (buffer : BigBuffer) (newData : List Byte) : Exec BigBuffer :=
  let pos := buffer.data.length + newData.length
  let size := if buffer.size < pos then buffer.size * 2 else buffer.size
  if pos ≤ INT_MAX ∧ size ≤ INT_MAX ∧ pos ≤ size then return ⟨buffer.data ++ newData, size⟩
  else throw .undefinedBehaviour

def writeByteToBigBuffer (buffer : BigBuffer) (b : Byte) : Exec BigBuffer :=
  writeToBigBuffer buffer [b]

structure WSFrame where
  opcodeAndFlags : Byte
  data : List Byte
  deriving DecidableEq

structure WSMessage where
  opcodeAndFlags : ℕ
  frames : List WSFrame
  deriving DecidableEq

def OPCODE_CONTINUATION : Byte := 0x00
def OPCODE_TEXT_FRAME : Byte := 0x01
def OPCODE_BINARY_FRAME : Byte := 0x02
def OPCODE_CONNECTION_CLOSE : Byte := 0x08
def OPCODE_UNKNOWN : ℕ := 0x9999

def makeMessage (opcode : ℕ) : WSMessage := ⟨opcode, []⟩

def addWSFrame (message : WSMessage) (newFrame : WSFrame) : WSMessage :=
  { message with frames := message.frames ++ [newFrame] }

/-- A number in the byte order of the network. -/
def bigEndian (width n : ℕ) : List Byte :=
  (List.range width).map fun i => BitVec.ofNat 8 (n / 256 ^ (width - 1 - i))

def ofBigEndian (bytes : List Byte) : ℕ := bytes.foldl (fun n b => n * 256 + b.toNat) 0

/-- The buffer of the work element: the header, and then the payload. -/
def addNewWSFrame (opcodeAndFlags : Byte) (payload : List Byte) : Exec (List Byte) :=
  let payloadLength := payload.length
  let headerLength := if 65536 ≤ payloadLength then 10 else if 126 ≤ payloadLength then 4 else 2
  let lengths : List Byte :=
    if 65536 ≤ payloadLength then 127 :: bigEndian 8 payloadLength
    else if 126 ≤ payloadLength then 126 :: bigEndian 2 payloadLength
    else [BitVec.ofNat 8 payloadLength]
  if payloadLength + headerLength ≤ INT_MAX then return opcodeAndFlags :: lengths ++ payload
  else throw .undefinedBehaviour

/-- Of the header, what `headerFill` counts is kept. -/
structure WSReadMachine where
  headerBuffer : List Byte := []
  headerNeed : ℕ := 0
  flagAndOpcodeByte : Byte := 0
  maskBytes : List Byte := [0, 0, 0, 0]
  payloadLengthLength : ℕ := 0
  fin : Bool := false
  headerRead : Bool := false
  isMasked : Bool := false
  payloadLength : ℤ := 0
  payloadFill : ℤ := 0
  maskModulus : ℕ := 0
  payloadStream : BigBuffer := makeBigBuffer 256
  currentMessage : Option WSMessage := none
  messageQueue : List WSMessage := []

def makeWSReadMachine : WSReadMachine := {}

/-- Of a session, whether it is to be closed, and the work elements that were enqueued for it. -/
structure WSSession where
  closeRequested : Bool := false
  closeHandshakes : List (List Byte) := []

def wsMessageClose (wsSession : WSSession) (opcodeAndFlags : Byte) (payload : List Byte) :
    Exec WSSession := do
  let buffer ← addNewWSFrame opcodeAndFlags payload
  return { wsSession with closeHandshakes := wsSession.closeHandshakes ++ [buffer] }

def dataAt (data : List Byte) (offset : ℤ) (count : ℕ) : Exec (List Byte) :=
  if 0 ≤ offset ∧ offset + count ≤ data.length then return (data.drop offset.toNat).take count
  else throw .undefinedBehaviour

namespace WSReadMachine

def headerFill (m : WSReadMachine) : ℕ := m.headerBuffer.length

def readFirstBytes (m : WSReadMachine) : WSReadMachine :=
  let flagAndOpcodeByte := m.headerBuffer.getD 0 0
  let maskAndPayloadLengthByte := m.headerBuffer.getD 1 0
  let lengthByte := maskAndPayloadLengthByte &&& 0x7F
  let isMasked : Bool := maskAndPayloadLengthByte &&& 0x80 ≠ 0
  let payloadLengthLength :=
    if lengthByte = 127 then 8 else if lengthByte = 126 then 2 else m.payloadLengthLength
  let headerNeed := 2 + (if isMasked then 4 else 0) + payloadLengthLength
  { m with
    flagAndOpcodeByte := flagAndOpcodeByte
    fin := flagAndOpcodeByte &&& 0x80 ≠ 0
    isMasked := isMasked
    payloadLengthLength := payloadLengthLength
    headerNeed := headerNeed
    headerRead := if headerNeed = 2 then true else m.headerRead
    payloadLength := if headerNeed = 2 then lengthByte.toNat else m.payloadLength }

/-- What the rest of a header says. -/
def readLengthAndMask (m : WSReadMachine) : WSReadMachine :=
  let payloadLength : ℤ :=
    if m.payloadLengthLength = 0 then (m.headerBuffer.getD 1 0 &&& 0x7F).toNat
    else if m.payloadLengthLength = 2 then ofBigEndian ((m.headerBuffer.drop 2).take 2)
    else if m.payloadLengthLength = 8 then
      (BitVec.ofNat 64 (ofBigEndian ((m.headerBuffer.drop 2).take 8))).toInt
    else m.payloadLength
  { m with
    payloadLength := payloadLength
    maskBytes :=
      if m.isMasked then (m.headerBuffer.drop (2 + m.payloadLengthLength)).take 4 else m.maskBytes
    headerRead := true }

def writeMasked (m : WSReadMachine) : List Byte → Exec WSReadMachine
  | [] => return m
  | d :: bytes => do
    let maskingByte := m.maskBytes.getD m.maskModulus 0
    let payloadStream ← writeByteToBigBuffer m.payloadStream (d ^^^ maskingByte)
    let maskModulus := if m.maskModulus + 1 = 4 then 0 else m.maskModulus + 1
    writeMasked { m with payloadStream := payloadStream, maskModulus := maskModulus } bytes

/-- How much of the payload is written now. The difference is cast to an `int`. -/
def writeLength (m : WSReadMachine) (available : ℕ) : ℤ :=
  if m.payloadLength - m.payloadFill < available then
    (BitVec.ofInt 32 (m.payloadLength - m.payloadFill)).toInt
  else available

/-- A payload, as far as it is there. A length below zero writes nothing where there is a mask. -/
def readPayload (m : WSReadMachine) (data : List Byte) (offset : ℤ) (available : ℕ) :
    Exec WSReadMachine := do
  let writeLength := m.writeLength available
  let m ←
    if m.isMasked then do m.writeMasked (← dataAt data offset writeLength.toNat)
    else if writeLength < 0 then throw .undefinedBehaviour
    else do
      let payloadStream ← writeToBigBuffer m.payloadStream (← dataAt data offset writeLength.toNat)
      pure { m with payloadStream := payloadStream }
  return { m with payloadFill := m.payloadFill + writeLength }

def completeFrame (m : WSReadMachine) (wsSession : WSSession) (shouldClose : Bool) :
    Exec (WSReadMachine × WSSession) := do
  let message := m.currentMessage.getD (makeMessage OPCODE_UNKNOWN)
  let message := addWSFrame message ⟨m.flagAndOpcodeByte, m.payloadStream.data⟩
  let wsSession ←
    if m.fin && shouldClose then
      let payload := match message.frames with
        | firstFrame :: _ => firstFrame.data
        | [] => []
      wsMessageClose { wsSession with closeRequested := true } m.flagAndOpcodeByte payload
    else pure wsSession
  let m : WSReadMachine :=
    { maskBytes := m.maskBytes
      currentMessage := if m.fin then none else some message
      messageQueue := if m.fin then m.messageQueue ++ [message] else m.messageQueue }
  return (m, wsSession)

end WSReadMachine

/-- The variables of a call. -/
structure Advance where
  m : WSReadMachine
  wsSession : WSSession
  offset : ℤ
  shouldClose : Bool
  anyMessagesReady : Bool

namespace Advance

def fillHeader (a : Advance) (data : List Byte) (need : ℕ) : Exec Advance := do
  let available := (data.length - a.offset).toNat
  let bytes ← dataAt data a.offset (min (need - a.m.headerFill) available)
  return { a with
    m := { a.m with headerBuffer := a.m.headerBuffer ++ bytes }
    offset := a.offset + bytes.length }

/-- The beginning of a header; what comes back says whether it is there. -/
def firstBytes (a : Advance) (data : List Byte) : Exec (Advance × Bool) := do
  if a.m.headerFill < 2 then
    let a ← a.fillHeader data 2
    if a.m.headerFill < 2 then return (a, false)
    else
      let m := a.m.readFirstBytes
      return ({ a with m := m, shouldClose := m.flagAndOpcodeByte &&& 0x08 ≠ 0 }, true)
  else return (a, true)

def restOfHeader (a : Advance) (data : List Byte) : Exec (Advance × Bool) := do
  if a.m.headerFill < a.m.headerNeed then
    let a ← a.fillHeader data a.m.headerNeed
    if a.m.headerFill < a.m.headerNeed then return (a, false)
    else return ({ a with m := a.m.readLengthAndMask }, true)
  else return (a, true)

def payload (a : Advance) (data : List Byte) : Exec Advance := do
  if a.m.headerRead then
    let available := (data.length - a.offset).toNat
    let m ← a.m.readPayload data a.offset available
    let offset := a.offset + a.m.writeLength available
    if m.payloadFill = m.payloadLength then
      let (m, wsSession) ← m.completeFrame a.wsSession a.shouldClose
      return { a with m := m, wsSession := wsSession, offset := offset, anyMessagesReady := true }
    else return { a with m := m, offset := offset }
  else return a

end Advance

def advanceLoop (data : List Byte) : ℕ → Advance → Exec (Bool × WSReadMachine × WSSession)
  | 0, _ => throw .nonTermination
  | fuel + 1, a => do
    if a.offset < data.length then
      let (a, more) ← a.firstBytes data
      if !more then return (false, a.m, a.wsSession)
      let (a, more) ← a.restOfHeader data
      if !more then return (false, a.m, a.wsSession)
      advanceLoop data fuel (← a.payload data)
    else return (a.anyMessagesReady, a.m, a.wsSession)

/-- The data are those from the offset of the caller on. -/
def readMachineAdvance (fuel : ℕ) (m : WSReadMachine) (data : List Byte) (wsSession : WSSession) :
    Exec (Bool × WSReadMachine × WSSession) :=
  advanceLoop data fuel ⟨m, wsSession, 0, false, false⟩

end WebSocket
end ZoweCommon
