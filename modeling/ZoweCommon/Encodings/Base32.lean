import ZoweCommon.Basic.Exec
import ZoweCommon.Encodings.Base64

/-! Base 32, with characters that have a sign or have none. -/
namespace ZoweCommon
namespace Encodings

/-- How the code is compiled. -/
structure Platform where
  charset : Charset
  signedChar : Bool

def Platform.charInt (pf : Platform) (c : Byte) : BitVec 32 :=
  if pf.signedChar then c.signExtend 32 else c.zeroExtend 32

def RFC4648 : ℤ := 0

def INVALID_ALPHABET : ℤ := 1

def INVALID_DECODE_SIZE : ℤ := 2

def DECODE_LENGTH_TOO_SMALL : ℤ := 3

def DECODE_CHAR_INVALID : ℤ := 4

def ENCODE_LENGTH_TOO_SMALL : ℤ := 3

def ASCIIDecodeTable : List (BitVec 32) :=
  [-1, -1, -1, -1, -1, -1, -1, -1, -1, -1, -1, -1, -1, -1, -1, -1,
   -1, -1, -1, -1, -1, -1, -1, -1, -1, -1, -1, -1, -1, -1, -1, -1,
   -1, -1, -1, -1, -1, -1, -1, -1, -1, -1, -1, -1, -1, -1, -1, -1,
   -1, -1, 26, 27, 28, 29, 30, 31, -1, -1, -1, -1, -1, -1, -1, -1,
   -1, 0, 1, 2, 3, 4, 5, 6, 7, 8, 9, 10, 11, 12, 13, 14,
   15, 16, 17, 18, 19, 20, 21, 22, 23, 24, 25, -1, -1, -1, -1, -1,
   -1, -1, -1, -1, -1, -1, -1, -1, -1, -1, -1, -1, -1, -1, -1, -1,
   -1, -1, -1, -1, -1, -1, -1, -1, -1, -1, -1, -1, -1, -1, -1, -1,
   -1, -1, -1, -1, -1, -1, -1, -1, -1, -1, -1, -1, -1, -1, -1, -1,
   -1, -1, -1, -1, -1, -1, -1, -1, -1, -1, -1, -1, -1, -1, -1, -1,
   -1, -1, -1, -1, -1, -1, -1, -1, -1, -1, -1, -1, -1, -1, -1, -1,
   -1, -1, -1, -1, -1, -1, -1, -1, -1, -1, -1, -1, -1, -1, -1, -1,
   -1, -1, -1, -1, -1, -1, -1, -1, -1, -1, -1, -1, -1, -1, -1, -1,
   -1, -1, -1, -1, -1, -1, -1, -1, -1, -1, -1, -1, -1, -1, -1, -1,
   -1, -1, -1, -1, -1, -1, -1, -1, -1, -1, -1, -1, -1, -1, -1, -1,
   -1, -1, -1, -1, -1, -1, -1, -1, -1, -1, -1, -1, -1, -1, -1, -1]

def EBCDICDecodeTable : List (BitVec 32) :=
  [-1, -1, -1, -1, -1, -1, -1, -1, -1, -1, -1, -1, -1, -1, -1, -1,
   -1, -1, -1, -1, -1, -1, -1, -1, -1, -1, -1, -1, -1, -1, -1, -1,
   -1, -1, -1, -1, -1, -1, -1, -1, -1, -1, -1, -1, -1, -1, -1, -1,
   -1, -1, -1, -1, -1, -1, -1, -1, -1, -1, -1, -1, -1, -1, -1, -1,
   -1, -1, -1, -1, -1, -1, -1, -1, -1, -1, -1, -1, -1, -1, -1, -1,
   -1, -1, -1, -1, -1, -1, -1, -1, -1, -1, -1, -1, -1, -1, -1, -1,
   -1, -1, -1, -1, -1, -1, -1, -1, -1, -1, -1, -1, -1, -1, -1, -1,
   -1, -1, -1, -1, -1, -1, -1, -1, -1, -1, -1, -1, -1, -1, -1, -1,
   -1, -1, -1, -1, -1, -1, -1, -1, -1, -1, -1, -1, -1, -1, -1, -1,
   -1, -1, -1, -1, -1, -1, -1, -1, -1, -1, -1, -1, -1, -1, -1, -1,
   -1, -1, -1, -1, -1, -1, -1, -1, -1, -1, -1, -1, -1, -1, -1, -1,
   -1, -1, -1, -1, -1, -1, -1, -1, -1, -1, -1, -1, -1, -1, -1, -1,
   -1, 0, 1, 2, 3, 4, 5, 6, 7, 8, -1, -1, -1, -1, -1, -1,
   -1, 9, 10, 11, 12, 13, 14, 15, 16, 17, -1, -1, -1, -1, -1, -1,
   -1, -1, 18, 19, 20, 21, 22, 23, 24, 25, -1, -1, -1, -1, -1, -1,
   -1, -1, 26, 27, 28, 29, 30, 31, -1, -1, -1, -1, -1, -1, -1, -1]

def ASCIIEncodeTable : List Byte :=
  [0x41, 0x42, 0x43, 0x44, 0x45, 0x46, 0x47, 0x48,
   0x49, 0x4a, 0x4b, 0x4c, 0x4d, 0x4e, 0x4f, 0x50,
   0x51, 0x52, 0x53, 0x54, 0x55, 0x56, 0x57, 0x58,
   0x59, 0x5a, 0x32, 0x33, 0x34, 0x35, 0x36, 0x37]

/-- Of the literals of the source. -/
def EBCDICEncodeTable (cs : Charset) : List Byte :=
  ['A', 'B', 'C', 'D', 'E', 'F', 'G', 'H',
   'I', 'J', 'K', 'L', 'M', 'N', 'O', 'P',
   'Q', 'R', 'S', 'T', 'U', 'V', 'W', 'X',
   'Y', 'Z', '2', '3', '4', '5', '6', '7'].map cs.char

/-- An index outside of a table has no meaning. -/
def lookup {α : Type} (table : List α) (index : BitVec 32) : Exec α :=
  if index.toInt < 0 then throw .undefinedBehaviour
  else
    match table[index.toInt.toNat]? with
    | some x => return x
    | none => throw .undefinedBehaviour

/-! Decoding -/

/-- The number for a character. The pointer stays at an equals sign. -/
def decodeChar (pf : Platform) (decodeTable : List (BitVec 32)) (equals : Byte) :
    List Byte → Exec (BitVec 32 × List Byte)
  | [] => throw .undefinedBehaviour
  | c :: input =>
    if c = equals then return (-2, c :: input)
    else do
      let ch ← lookup decodeTable (pf.charInt c)
      return (ch, input)

/-- What is put out for a group, and whether the loop goes on. -/
def decodedBytes (ch0 ch1 ch2 ch3 ch4 ch5 ch6 ch7 : BitVec 32) : List Byte × Bool :=
  let byte0 : Byte := ((ch0 <<< 3) ||| ch1.sshiftRight 2).truncate 8
  let byte1 : Byte :=
    ((ch1 <<< 6) ||| (ch2 <<< 1) ||| (ch3.sshiftRight 4 &&& 0xff)).truncate 8
  let byte2 : Byte := ((ch3 <<< 4) ||| (ch4.sshiftRight 1 &&& 0xff)).truncate 8
  let byte3 : Byte :=
    ((ch4 <<< 7) ||| (ch5 <<< 2) ||| (ch6.sshiftRight 3 &&& 0xff)).truncate 8
  let byte4 : Byte := ((ch6 <<< 5) ||| (ch7 &&& 0xff)).truncate 8
  if ch0 = -2 then ([], false)
  else if ch2 = -2 then ([byte0], false)
  else if ch4 = -2 then ([byte0, byte1], false)
  else if ch5 = -2 then ([byte0, byte1, byte2], false)
  else if ch7 = -2 then ([byte0, byte1, byte2, byte3], false)
  else ([byte0, byte1, byte2, byte3, byte4], true)

def decodeGroups32 (pf : Platform) (decodeTable : List (BitVec 32)) (equals : Byte) :
    ℕ → List Byte → List Byte → Exec (ℤ × List Byte)
  | 0, _, output => return (0, output)
  | numFullGroups + 1, input, output => do
    let (ch0, input) ← decodeChar pf decodeTable equals input
    let (ch1, input) ← decodeChar pf decodeTable equals input
    let (ch2, input) ← decodeChar pf decodeTable equals input
    let (ch3, input) ← decodeChar pf decodeTable equals input
    let (ch4, input) ← decodeChar pf decodeTable equals input
    let (ch5, input) ← decodeChar pf decodeTable equals input
    let (ch6, input) ← decodeChar pf decodeTable equals input
    let (ch7, input) ← decodeChar pf decodeTable equals input
    if ch0 = -1 ∨ ch1 = -1 ∨ ch2 = -1 ∨ ch3 = -1 ∨ ch4 = -1 ∨ ch5 = -1 ∨ ch6 = -1 ∨ ch7 = -1 then
      return (DECODE_CHAR_INVALID, output)
    else
      let group := decodedBytes ch0 ch1 ch2 ch3 ch4 ch5 ch6 ch7
      if group.2 then decodeGroups32 pf decodeTable equals numFullGroups input (output ++ group.1)
      else return (0, output ++ group.1)

def equals32 (pf : Platform) (useEBCDIC : Bool) : Byte :=
  if useEBCDIC then pf.charset.char '=' else 0x3d

/-- The return code, what is put out, and `*outputLength`. -/
def base32Decode (pf : Platform) (alphabet : ℤ) (text : List Byte) (outputLength : ℤ)
    (useEBCDIC : Bool) : Exec (ℤ × List Byte × ℤ) :=
  let inputLength := toInt32 text.length
  if alphabet ≠ RFC4648 then return (INVALID_ALPHABET, [], outputLength)
  else if inputLength.tmod 8 ≠ 0 then return (INVALID_DECODE_SIZE, [], outputLength)
  else if toInt32 ((toInt32 (inputLength + 7)).tdiv 8 * 5) > outputLength then
    return (DECODE_LENGTH_TOO_SMALL, [], outputLength)
  else do
    let decodeTable := if useEBCDIC then EBCDICDecodeTable else ASCIIDecodeTable
    let (rc, output) ← decodeGroups32 pf decodeTable (equals32 pf useEBCDIC)
      (inputLength.tdiv 8).toNat (text ++ [0]) []
    if rc = 0 then return (rc, output, output.length)
    else return (rc, output, outputLength)

/-! Encoding -/

def encodeFullGroup (encodeTable : List Byte) (byte0 byte1 byte2 byte3 byte4 : BitVec 32) :
    Exec (List Byte) := do
  let c0 ← lookup encodeTable (byte0.sshiftRight 3 &&& 0x1f)
  let c1 ← lookup encodeTable ((byte0 <<< 2 &&& 0x1f) ||| byte1.sshiftRight 6)
  let c2 ← lookup encodeTable (byte1.sshiftRight 1 &&& 0x1f)
  let c3 ← lookup encodeTable ((byte1 <<< 4 &&& 0x1f) ||| byte2.sshiftRight 4)
  let c4 ← lookup encodeTable ((byte2 <<< 1 &&& 0x1f) ||| byte3.sshiftRight 7)
  let c5 ← lookup encodeTable (byte3.sshiftRight 2 &&& 0x1f)
  let c6 ← lookup encodeTable ((byte3 <<< 3 &&& 0x1f) ||| byte4.sshiftRight 5)
  let c7 ← lookup encodeTable (byte4 &&& 0x1f)
  return [c0, c1, c2, c3, c4, c5, c6, c7]

/-- The bytes of a full group are masked, and those of the last group are not. -/
def encodeGroups32 (pf : Platform) (encodeTable : List Byte) (equals : Byte) :
    List Byte → Exec (List Byte)
  | a :: b :: c :: d :: e :: input => do
    let group ← encodeFullGroup encodeTable (pf.charInt a &&& 0xff) (pf.charInt b &&& 0xff)
      (pf.charInt c &&& 0xff) (pf.charInt d &&& 0xff) (pf.charInt e &&& 0xff)
    let text ← encodeGroups32 pf encodeTable equals input
    return group ++ text
  | [a, b, c, d] => do
    let byte0 := pf.charInt a
    let byte1 := pf.charInt b
    let byte2 := pf.charInt c
    let byte3 := pf.charInt d
    let c0 ← lookup encodeTable (byte0.sshiftRight 3 &&& 0x1f)
    let c1 ← lookup encodeTable ((byte0 <<< 2 &&& 0x1f) ||| byte1.sshiftRight 6)
    let c2 ← lookup encodeTable (byte1.sshiftRight 1 &&& 0x1f)
    let c3 ← lookup encodeTable ((byte1 <<< 4 &&& 0x1f) ||| byte2.sshiftRight 4)
    let c4 ← lookup encodeTable ((byte2 <<< 1 &&& 0x1f) ||| byte3.sshiftRight 7)
    let c5 ← lookup encodeTable (byte3.sshiftRight 2 &&& 0x1f)
    let c6 ← lookup encodeTable (byte3 <<< 3 &&& 0x1f)
    return [c0, c1, c2, c3, c4, c5, c6, equals]
  | [a, b, c] => do
    let byte0 := pf.charInt a
    let byte1 := pf.charInt b
    let byte2 := pf.charInt c
    let c0 ← lookup encodeTable (byte0.sshiftRight 3 &&& 0x1f)
    let c1 ← lookup encodeTable ((byte0 <<< 2 &&& 0x1f) ||| byte1.sshiftRight 6)
    let c2 ← lookup encodeTable (byte1.sshiftRight 1 &&& 0x1f)
    let c3 ← lookup encodeTable ((byte1 <<< 4 &&& 0x1f) ||| byte2.sshiftRight 4)
    let c4 ← lookup encodeTable (byte2 <<< 1 &&& 0x1f)
    return [c0, c1, c2, c3, c4, equals, equals, equals]
  | [a, b] => do
    let byte0 := pf.charInt a
    let byte1 := pf.charInt b
    let c0 ← lookup encodeTable (byte0.sshiftRight 3 &&& 0x1f)
    let c1 ← lookup encodeTable ((byte0 <<< 2 &&& 0x1f) ||| byte1.sshiftRight 6)
    let c2 ← lookup encodeTable (byte1.sshiftRight 1 &&& 0x1f)
    let c3 ← lookup encodeTable (byte1 <<< 4 &&& 0x1f)
    return [c0, c1, c2, c3, equals, equals, equals, equals]
  | [a] => do
    let byte0 := pf.charInt a
    let c0 ← lookup encodeTable (byte0.sshiftRight 3 &&& 0x1f)
    let c1 ← lookup encodeTable (byte0 <<< 2 &&& 0x1f)
    return [c0, c1, equals, equals, equals, equals, equals, equals]
  | [] => return []

def base32Encode (pf : Platform) (alphabet : ℤ) (input : List Byte) (outputLength : ℤ)
    (useEBCDIC : Bool) : Exec (ℤ × List Byte × ℤ) :=
  if alphabet ≠ RFC4648 then return (INVALID_ALPHABET, [], outputLength)
  else if toInt32 (toInt32 ((toInt32 (input.length + 4)).tdiv 5 * 8) + 1) > outputLength then
    return (ENCODE_LENGTH_TOO_SMALL, [], outputLength)
  else do
    let encodeTable := if useEBCDIC then EBCDICEncodeTable pf.charset else ASCIIEncodeTable
    let text ← encodeGroups32 pf encodeTable (equals32 pf useEBCDIC) input
    return (0, text ++ [0], toInt32 (text.length + 1))

end Encodings
end ZoweCommon
