import ZoweCommon.Basic.CLibrary
import ZoweCommon.Basic.Ebcdic
import ZoweCommon.Lib.ChunkedBody

/-! Responses in chunks. -/
namespace ZoweCommon
namespace Http

open CLibrary (formatX)
open Ebcdic (toASCIIUTF8)

/-- What comes from outside: all that a socket has sent after a text, from what it had sent before,
and whether that went well. -/
abbrev WriteFully := List Byte → List Byte → List Byte × Bool

/-- All writes to the socket succeed. -/
def WriteFully.Succeeds (writeFully : WriteFully) : Prop :=
  ∀ sent data, writeFully sent data = (sent ++ data, true)

/-- `buffer` is what is there up to `fill`, and `sent` and `runningInSubtask` are those of the
response. -/
structure ChunkedOutputStream where
  runningInSubtask : Bool := false
  sent : List Byte := []
  bufferSize : ℕ
  buffer : List Byte := []
  isErrorState : Bool := false

namespace ChunkedOutputStream

def fill (s : ChunkedOutputStream) : ℕ := s.buffer.length

def makeChunkedOutputStreamInternal (runningInSubtask : Bool) : ChunkedOutputStream :=
  { runningInSubtask, bufferSize := 1024 }

section Write

variable (writeFully : WriteFully)

/-- In a subtask the address of the data is enqueued, and by the time it is written the data is not
there any more. -/
def chunkWrite (s : ChunkedOutputStream) (data : List Byte) : Exec ChunkedOutputStream :=
  if s.isErrorState then return s
  else if s.runningInSubtask then throw .undefinedBehaviour
  else
    let (sent, written) := writeFully s.sent data
    return { s with sent, isErrorState := !written }

def crlf : List Byte := [0x0D, 0x0A]

def writeTransferChunkHeader (s : ChunkedOutputStream) (size : ℕ) : Exec ChunkedOutputStream :=
  let buffer := (formatX 0 size).map Ebcdic.toIbm1047 ++ [0x0D, 0x15]
  s.chunkWrite writeFully (toASCIIUTF8 buffer)

def translated (translate : Bool) (data : List Byte) : List Byte :=
  if translate then toASCIIUTF8 data else data

/-- The lines that `writeBytes` and `finishChunkedOutput` have in common. -/
def writeFill (s : ChunkedOutputStream) (translate : Bool) : Exec ChunkedOutputStream :=
  if 0 < s.fill then do
    let s' ← s.writeTransferChunkHeader writeFully s.fill
    let s' ← s'.chunkWrite writeFully (translated translate s.buffer)
    s'.chunkWrite writeFully crlf
  else return s

/-- `len` bytes of `data`. What the buffer holds is translated when it is written, as the call says
that fills it. -/
def writeBytes (s : ChunkedOutputStream) (data : List Byte) (len : ℤ) (translate : Bool) :
    Exec ChunkedOutputStream := do
  if s.bufferSize < len then
    let s ← s.writeFill writeFully translate
    let s ← s.writeTransferChunkHeader writeFully len.toNat
    let s ← s.chunkWrite writeFully (translated translate (data.take len.toNat))
    let s ← s.chunkWrite writeFully crlf
    return { s with buffer := [] }
  else if s.bufferSize ≤ s.fill + len then
    let s ← s.writeTransferChunkHeader writeFully (s.fill + len).toNat
    let s ← s.chunkWrite writeFully (translated translate s.buffer)
    let s ← s.chunkWrite writeFully (translated translate (data.take len.toNat))
    let s ← s.chunkWrite writeFully crlf
    return { s with buffer := [] }
  else if len < 0 then throw .undefinedBehaviour
  else return { s with buffer := s.buffer ++ data.take len.toNat }

/-- The length is made an `int`. -/
def writeString (s : ChunkedOutputStream) (string : CString) : Exec ChunkedOutputStream :=
  let len := (BitVec.ofNat 32 string.strlen).toInt
  s.writeBytes writeFully string.bytes len true

def finishChunkedOutput (s : ChunkedOutputStream) (translate : Bool) : Exec ChunkedOutputStream := do
  let s ← s.writeFill writeFully translate
  let s ← s.writeTransferChunkHeader writeFully 0
  s.chunkWrite writeFully crlf

/-- Of a response with a stream: `jp` is whether it has a JSON printer. -/
def finishResponse (s : ChunkedOutputStream) (jp : Bool) : Exec ChunkedOutputStream :=
  s.finishChunkedOutput writeFully !jp

end Write

end ChunkedOutputStream
end Http
end ZoweCommon
