import ZoweCommon.Basic.Base64
import ZoweCommon.Basic.MachineInt
import ZoweCommon.Lib.Recorded

/-! Base 64 as it is compiled for z/OS and for other systems, with every access to a buffer. -/
namespace ZoweCommon
namespace Encodings

open Base64 (firstByte secondByte thirdByte)

/-- What the literals of the source are compiled to. -/
inductive Charset
  | ascii
  | ebcdic
  deriving DecidableEq

def Charset.char : Charset → Char → Byte
  | .ascii, c => BitVec.ofNat 8 c.toNat
  | .ebcdic, c => Ebcdic.toIbm1047 (BitVec.ofNat 8 c.toNat)

/-- An access to the input, or to the output. -/
inductive Access
  | read (index : ℤ)
  | write (index : ℤ) (byte : Byte)
  deriving DecidableEq

abbrev Traced := Recorded Access Empty

/-- A buffer is what is in memory from a pointer on, and before it. -/
abbrev Buffer := ℤ → Byte

def readAt (s : Buffer) (index : ℤ) : Traced Byte := do
  Recorded.record (.read index)
  return s index

def writeAt (index : ℤ) (byte : Byte) : Traced Unit := Recorded.record (.write index byte)

/-- The ranges are in one half of the characters each, so that signs do not matter. -/
def getBitsForChar (cs : Charset) (c : Byte) : BitVec 32 :=
  if cs.char 'a' ≤ c ∧ c ≤ cs.char 'i' then (c - cs.char 'a').zeroExtend 32 + 26
  else if cs.char 'j' ≤ c ∧ c ≤ cs.char 'r' then (c - cs.char 'j').zeroExtend 32 + 35
  else if cs.char 's' ≤ c ∧ c ≤ cs.char 'z' then (c - cs.char 's').zeroExtend 32 + 44
  else if cs.char 'A' ≤ c ∧ c ≤ cs.char 'I' then (c - cs.char 'A').zeroExtend 32 + 0
  else if cs.char 'J' ≤ c ∧ c ≤ cs.char 'R' then (c - cs.char 'J').zeroExtend 32 + 9
  else if cs.char 'S' ≤ c ∧ c ≤ cs.char 'Z' then (c - cs.char 'S').zeroExtend 32 + 18
  else if cs.char '0' ≤ c ∧ c ≤ cs.char '9' then (c - cs.char '0').zeroExtend 32 + 52
  else if c = cs.char '+' then 62
  else if c = cs.char '/' then 63
  else -1

/-! Decoding -/

def decodeFullGroups (cs : Charset) (s : Buffer) : ℕ → ℤ → ℤ → Traced (ℤ × ℤ)
  | 0, inCursor, outCursor => return (inCursor, outCursor)
  | numFullGroups + 1, inCursor, outCursor => do
    let ch0 := getBitsForChar cs (← readAt s inCursor)
    let ch1 := getBitsForChar cs (← readAt s (inCursor + 1))
    let ch2 := getBitsForChar cs (← readAt s (inCursor + 2))
    let ch3 := getBitsForChar cs (← readAt s (inCursor + 3))
    writeAt outCursor (firstByte ch0 ch1)
    writeAt (outCursor + 1) (secondByte ch1 ch2)
    writeAt (outCursor + 2) (thirdByte ch2 ch3)
    decodeFullGroups cs s numFullGroups (inCursor + 4) (outCursor + 3)

def decodePartialGroup (cs : Charset) (s : Buffer) (missingBytesInLastGroup : ℕ)
    (inCursor outCursor : ℤ) : Traced ℤ := do
  let ch0 := getBitsForChar cs (← readAt s inCursor)
  let ch1 := getBitsForChar cs (← readAt s (inCursor + 1))
  writeAt outCursor (firstByte ch0 ch1)
  if missingBytesInLastGroup = 1 then do
    let ch2 := getBitsForChar cs (← readAt s (inCursor + 2))
    writeAt (outCursor + 1) (secondByte ch1 ch2)
    return outCursor + 2
  else return outCursor + 1

def isEquals (cs : Charset) (s : Buffer) (index : ℤ) : Traced Bool := do
  return (← readAt s index) = cs.char '='

def decodeGroups (cs : Charset) (s : Buffer) (numFullGroups missingBytesInLastGroup : ℕ) :
    Traced ℤ := do
  let (inCursor, outCursor) ← decodeFullGroups cs s numFullGroups 0 0
  if missingBytesInLastGroup = 0 then return outCursor
  else decodePartialGroup cs s missingBytesInLastGroup inCursor outCursor

/-- The number of bytes, or a negative number. -/
def decodeBase64Unterminated (cs : Charset) (s : Buffer) (sLen : ℤ) : Traced ℤ := do
  let numGroups := sLen.tdiv 4
  if 4 * numGroups ≠ sLen then return -1
  else if sLen = 0 then decodeGroups cs s 0 0
  else
    let lastIsMissing ← isEquals cs s (sLen - 1)
    let beforeLastIsMissing ← isEquals cs s (sLen - 2)
    let numFullGroups := if lastIsMissing then numGroups - 1 else numGroups
    decodeGroups cs s numFullGroups.toNat (lastIsMissing.toNat + beforeLastIsMissing.toNat)

/-! Encoding -/

def binToB64 : List Byte :=
  [0x41, 0x42, 0x43, 0x44, 0x45, 0x46, 0x47, 0x48, 0x49, 0x4A, 0x4B, 0x4C, 0x4D, 0x4E, 0x4F, 0x50,
   0x51, 0x52, 0x53, 0x54, 0x55, 0x56, 0x57, 0x58, 0x59, 0x5A, 0x61, 0x62, 0x63, 0x64, 0x65, 0x66,
   0x67, 0x68, 0x69, 0x6A, 0x6B, 0x6C, 0x6D, 0x6E, 0x6F, 0x70, 0x71, 0x72, 0x73, 0x74, 0x75, 0x76,
   0x77, 0x78, 0x79, 0x7A, 0x30, 0x31, 0x32, 0x33, 0x34, 0x35, 0x36, 0x37, 0x38, 0x39, 0x2B, 0x2F]

def translation (useEbcdic : Bool) (bits : Byte) : Byte :=
  if useEbcdic then Base64.binToEB64.getD bits.toNat 0 else binToB64.getD bits.toNat 0

def equalsChar (cs : Charset) (useEbcdic : Bool) : Byte :=
  if useEbcdic then cs.char '=' else 0x3D

def encodeGroups (cs : Charset) (useEbcdic : Bool) : List Byte → List Byte
  | byte0 :: byte1 :: byte2 :: data =>
    translation useEbcdic (byte0 >>> 2) ::
      translation useEbcdic (((byte0 <<< 4) &&& 0x3F) ||| (byte1 >>> 4)) ::
      translation useEbcdic (((byte1 <<< 2) &&& 0x3F) ||| (byte2 >>> 6)) ::
      translation useEbcdic (byte2 &&& 0x3F) :: encodeGroups cs useEbcdic data
  | [byte0] =>
    [translation useEbcdic (byte0 >>> 2), translation useEbcdic ((byte0 <<< 4) &&& 0x3F),
      equalsChar cs useEbcdic, equalsChar cs useEbcdic]
  | [byte0, byte1] =>
    [translation useEbcdic (byte0 >>> 2),
      translation useEbcdic (((byte0 <<< 4) &&& 0x3F) ||| (byte1 >>> 4)),
      translation useEbcdic ((byte1 <<< 2) &&& 0x3F), equalsChar cs useEbcdic]
  | [] => []

/-- What is put into the buffer, and `*resultSize`. The terminator is stored where that says. -/
def encodeBase64NoAlloc (cs : Charset) (data : List Byte) (useEbcdic : Bool) :
    Exec (List Byte × ℤ) :=
  let result := encodeGroups cs useEbcdic data
  let resultSize := toInt32 result.length
  if resultSize = result.length then return (result ++ [0], resultSize)
  else throw .undefinedBehaviour

end Encodings
end ZoweCommon
