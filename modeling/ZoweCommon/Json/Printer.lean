import ZoweCommon.Basic.CLibrary
import ZoweCommon.Json.Tree

/-! The printer that writes JSON into a buffer. Its texts are in UTF-8, the character set of the
source code everywhere but on z/OS, so that none is converted. -/
namespace ZoweCommon

open CLibrary CString

def INT32_MAX : ℕ := 2147483647

def JSON_BUF_DEFAULT_SIZE : ℕ := 1024

/-- The length of `data` is the source's `len`. -/
structure JsonBuffer where
  data : List Byte
  size : ℕ
  size_eq : ∃ k ≤ 20, size = JSON_BUF_DEFAULT_SIZE * 2 ^ k
  len_le : data.length ≤ size

def makeJsonBuffer : JsonBuffer where
  data := []
  size := JSON_BUF_DEFAULT_SIZE
  size_eq := ⟨0, by omega, by simp⟩
  len_le := Nat.zero_le _

namespace JsonBuffer

theorem size_pos (buf : JsonBuffer) : 0 < buf.size := by
  obtain ⟨k, -, h⟩ := buf.size_eq
  rw [h]
  exact Nat.mul_pos (by decide) (Nat.two_pow_pos k)

def double (buf : JsonBuffer) (h : ¬buf.size > INT32_MAX / 2) : JsonBuffer where
  data := buf.data
  size := 2 * buf.size
  size_eq := by
    obtain ⟨k, hk, hsize⟩ := buf.size_eq
    refine ⟨k + 1, ?_, by rw [hsize]; ring⟩
    rcases Nat.lt_or_eq_of_le hk with hlt | rfl
    · exact hlt
    · rw [hsize] at h
      exact absurd (by decide) h
  len_le := buf.len_le.trans (by omega)

/-- Doubled as often as needed, and as allowed. -/
def makeRoom (buf : JsonBuffer) (len : ℕ) : JsonBuffer :=
  if buf.size - buf.data.length < len then
    if h : buf.size > INT32_MAX / 2 then buf
    else makeRoom (buf.double h) len
  else buf
termination_by INT32_MAX - buf.size
decreasing_by
  have hpos := buf.size_pos
  unfold INT32_MAX at h ⊢
  unfold double
  dsimp only
  omega

def append (buf : JsonBuffer) (text : List Byte) (h : buf.data.length + text.length ≤ buf.size) :
    JsonBuffer where
  data := buf.data ++ text
  size := buf.size
  size_eq := buf.size_eq
  len_le := by rwa [List.length_append]

end JsonBuffer

inductive JsonCharsetConversion
  | JSON_MODE_NATIVE_CHARSET
  | JSON_MODE_CONVERT_TO_UTF8
  deriving DecidableEq

structure JsonPrinter where
  mode : JsonCharsetConversion
  depth : ℤ
  isStart : Bool
  isEnd : Bool
  customObject : JsonBuffer
  isFirstLine : Bool
  prettyPrint : Bool
  ioErrorFlag : Bool

def makeCustomJsonPrinter (mode : JsonCharsetConversion) (buf : JsonBuffer) : JsonPrinter where
  mode := mode
  depth := 0
  isStart := true
  isEnd := false
  customObject := buf
  isFirstLine := true
  prettyPrint := false
  ioErrorFlag := false

def makeBufferJsonPrinter (buf : JsonBuffer) : JsonPrinter :=
  makeCustomJsonPrinter .JSON_MODE_CONVERT_TO_UTF8 buf

def makeBufferNativeJsonPrinter (buf : JsonBuffer) : JsonPrinter :=
  makeCustomJsonPrinter .JSON_MODE_NATIVE_CHARSET buf

namespace JsonPrinter

def jsonEnablePrettyPrint (p : JsonPrinter) : JsonPrinter := { p with prettyPrint := true }

def writeToBuffer (p : JsonPrinter) (text : List Byte) : JsonPrinter :=
  let buf := p.customObject.makeRoom text.length
  if h : buf.data.length + text.length ≤ buf.size then { p with customObject := buf.append text h }
  else { p with customObject := buf, ioErrorFlag := true }

def jsonWriteBufferInternal (p : JsonPrinter) (text : List Byte) : JsonPrinter :=
  if p.ioErrorFlag then p else p.writeToBuffer text

def UTF8_QUOTE : BitVec 32 := 0x22
def UTF8_BACKSLASH : BitVec 32 := 0x5C
def UTF8_ESCAPED_QUOTE : List Byte := [0x5C, 0x22]
def UTF8_ESCAPED_BACKSLASH : List Byte := [0x5C, 0x5C]
def ESCAPE_LEN : ℕ := 6
def effectiveControlCharBoundary : BitVec 32 := 0x1F

/-- The character that begins with a byte, as far as its width goes, and that width. -/
def UTF8_GET_NEXT_CHAR (c : Byte) : BitVec 32 × ℕ :=
  if c &&& 0x80 = 0 then (c.signExtend 32, 1)
  else if c &&& 0xE0 = 0xC0 then (0x80, 2)
  else if c &&& 0xF0 = 0xE0 then (0x0800, 3)
  else if c &&& 0xF8 = 0xF0 then (0x10000, 4)
  else (c.signExtend 32, 1)

theorem one_le_width (c : Byte) : 1 ≤ (UTF8_GET_NEXT_CHAR c).2 := by
  unfold UTF8_GET_NEXT_CHAR
  split_ifs <;> simp

/-- The text that stands for a character that must not be written as it is. -/
def escapeSequence (utf8Char : BitVec 32) : List Byte :=
  if utf8Char = UTF8_BACKSLASH then UTF8_ESCAPED_BACKSLASH
  else if utf8Char = UTF8_QUOTE then UTF8_ESCAPED_QUOTE
  else (ascii "\\u" ++ formatX 4 utf8Char.toNat).take ESCAPE_LEN

def needsEscape (utf8Char : BitVec 32) : Bool :=
  utf8Char ≤ effectiveControlCharBoundary || utf8Char = UTF8_BACKSLASH || utf8Char = UTF8_QUOTE

def writeChunk (p : JsonPrinter) (chunk : List Byte) : JsonPrinter :=
  if chunk.length > 0 then p.jsonWriteBufferInternal chunk else p

/-- The chunk is what was passed over since the last escape. -/
def writeBufferWithEscapingFrom (p : JsonPrinter) (chunk : List Byte) : List Byte → JsonPrinter
  | [] => p.writeChunk chunk
  | c :: text =>
    let next := UTF8_GET_NEXT_CHAR c
    if needsEscape next.1 then
      let p := p.writeChunk chunk
      let p := p.jsonWriteBufferInternal (escapeSequence next.1)
      writeBufferWithEscapingFrom p [] ((c :: text).drop next.2)
    else
      writeBufferWithEscapingFrom p (chunk ++ (c :: text).take next.2) ((c :: text).drop next.2)
termination_by text => text.length
decreasing_by
  all_goals
    have := one_le_width c
    simp only [List.length_drop, List.length_cons]
    omega

def writeBufferWithEscaping (p : JsonPrinter) (text : List Byte) : JsonPrinter :=
  p.writeBufferWithEscapingFrom [] text

def isSpecialChar (c : Byte) : Bool := c = 0x22 || c = 0x5C || c = 0x0A || c = 0x0D

/-- One character of an escaped string. -/
def escapeNative (c : Byte) : List Byte :=
  if c = 0x0A then [0x5C, 0x6E]
  else if c = 0x0D then [0x5C, 0x72]
  else if c = 0x22 ∨ c = 0x5C then [0x5C, c]
  else [c]

def jsonWriteEscapedString (p : JsonPrinter) (s : List Byte) : JsonPrinter :=
  if (s.filter isSpecialChar).length > 0 then p.jsonWriteBufferInternal (s.flatMap escapeNative)
  else p.jsonWriteBufferInternal s

def jsonConvertAndWriteBuffer (p : JsonPrinter) (text : List Byte) (escape : Bool) : JsonPrinter :=
  if p.ioErrorFlag then p
  else match p.mode with
    | .JSON_MODE_CONVERT_TO_UTF8 =>
      if escape then p.writeBufferWithEscaping text else p.jsonWriteBufferInternal text
    | .JSON_MODE_NATIVE_CHARSET =>
      if escape then p.jsonWriteEscapedString text else p.jsonWriteBufferInternal text

def jsonWrite (p : JsonPrinter) (text : List Byte) (escape : Bool) : JsonPrinter :=
  p.jsonConvertAndWriteBuffer text escape

def jsonWriteParseably (p : JsonPrinter) (text : List Byte) (quote escape : Bool) : JsonPrinter :=
  let p := if quote then p.jsonWrite (ascii "\"") false else p
  let p := p.jsonConvertAndWriteBuffer text escape
  if quote then p.jsonWrite (ascii "\"") false else p

def indentString : List Byte := ascii "  "

def jsonIndent (p : JsonPrinter) : JsonPrinter :=
  (fun p : JsonPrinter => p.jsonWrite indentString false)^[p.depth.toNat] p

def jsonNewLine (p : JsonPrinter) : JsonPrinter :=
  let p := if p.isEnd then { p with isEnd := false }
    else if p.isStart then { p with isStart := false }
    else p.jsonWrite (ascii ",") false
  if p.prettyPrint then (p.jsonWrite (ascii "\n") false).jsonIndent else p

def jsonWriteInt (p : JsonPrinter) (value : BitVec 32) : JsonPrinter :=
  p.jsonWrite (snprintf 64 (formatD value.toInt)) false

def jsonWriteInt64 (p : JsonPrinter) (value : BitVec 64) : JsonPrinter :=
  p.jsonWrite (snprintf 64 (formatD value.toInt)) false

def jsonWriteDouble (p : JsonPrinter) (value : BitVec 64) : JsonPrinter :=
  p.jsonWrite (snprintf 64 (formatF value)) false

def jsonWriteBoolean (p : JsonPrinter) (value : Bool) : JsonPrinter :=
  p.jsonWrite (if value then ascii "true" else ascii "false") false

def jsonWriteNull (p : JsonPrinter) : JsonPrinter := p.jsonWrite (ascii "null") false

def jsonWriteQuotedString (p : JsonPrinter) (s : CString) : JsonPrinter :=
  let p := p.jsonWrite (ascii "\"") false
  let p := p.jsonWrite s.bytes true
  p.jsonWrite (ascii "\"") false

def jsonWriteKeyAndSemicolon (p : JsonPrinter) : Option CString → JsonPrinter
  | some key =>
    let p := p.jsonWriteQuotedString key
    if p.prettyPrint then p.jsonWrite (ascii ": ") false else p.jsonWrite (ascii ":") false
  | none => p

def jsonStartValue (p : JsonPrinter) (keyOrNull : Option CString) : JsonPrinter :=
  let p := if p.isFirstLine then { p with isFirstLine := false } else p.jsonNewLine
  p.jsonWriteKeyAndSemicolon keyOrNull

def jsonStart (bracket : List Byte) (p : JsonPrinter) (keyOrNull : Option CString) : JsonPrinter :=
  if p.ioErrorFlag then p
  else
    let p := (p.jsonStartValue keyOrNull).jsonWrite bracket false
    { p with depth := p.depth + 1, isStart := true, isEnd := false }

def jsonEnd (bracket : List Byte) (p : JsonPrinter) : JsonPrinter :=
  if p.ioErrorFlag then p
  else
    let p := { p with depth := p.depth - 1, isStart := false, isEnd := true }
    p.jsonNewLine.jsonWrite bracket false

def jsonStartObject : JsonPrinter → Option CString → JsonPrinter := jsonStart (ascii "\x7b")
def jsonEndObject : JsonPrinter → JsonPrinter := jsonEnd (ascii "\x7d")
def jsonStartArray : JsonPrinter → Option CString → JsonPrinter := jsonStart (ascii "[")
def jsonEndArray : JsonPrinter → JsonPrinter := jsonEnd (ascii "]")

def jsonAdd (write : JsonPrinter → JsonPrinter) (p : JsonPrinter) (keyOrNull : Option CString) :
    JsonPrinter :=
  if p.ioErrorFlag then p else write (p.jsonStartValue keyOrNull)

def jsonAddString (p : JsonPrinter) (keyOrNull : Option CString) (value : CString) : JsonPrinter :=
  jsonAdd (fun p => p.jsonWriteQuotedString value) p keyOrNull

def jsonAddBoolean (p : JsonPrinter) (keyOrNull : Option CString) (value : Bool) : JsonPrinter :=
  jsonAdd (fun p => p.jsonWriteBoolean value) p keyOrNull

def jsonAddNull (p : JsonPrinter) (keyOrNull : Option CString) : JsonPrinter :=
  jsonAdd (fun p => p.jsonWriteNull) p keyOrNull

def jsonAddInt (p : JsonPrinter) (keyOrNull : Option CString) (value : BitVec 32) : JsonPrinter :=
  jsonAdd (fun p => p.jsonWriteInt value) p keyOrNull

def jsonAddInt64 (p : JsonPrinter) (keyOrNull : Option CString) (value : BitVec 64) : JsonPrinter :=
  jsonAdd (fun p => p.jsonWriteInt64 value) p keyOrNull

def jsonAddDouble (p : JsonPrinter) (keyOrNull : Option CString) (value : BitVec 64) :
    JsonPrinter :=
  jsonAdd (fun p => p.jsonWriteDouble value) p keyOrNull

mutual

def jsonPrintInternal : Json → JsonPrinter → Option CString → JsonPrinter
  | .scalar (.number n), p, keyOrNull => p.jsonAddInt keyOrNull n
  | .scalar (.int64 n), p, keyOrNull => p.jsonAddInt64 keyOrNull n
  | .scalar (.double d), p, keyOrNull => p.jsonAddDouble keyOrNull d
  | .scalar (.string s), p, keyOrNull => p.jsonAddString keyOrNull s
  | .scalar (.boolean b), p, keyOrNull => p.jsonAddBoolean keyOrNull b
  | .scalar .null, p, keyOrNull => p.jsonAddNull keyOrNull
  | .object properties, p, keyOrNull =>
    (jsonPrintObject properties (p.jsonStartObject keyOrNull)).jsonEndObject
  | .array elements, p, keyOrNull =>
    (jsonPrintArray elements (p.jsonStartArray keyOrNull)).jsonEndArray

def jsonPrintObject : List (CString × Json) → JsonPrinter → JsonPrinter
  | [], p => p
  | (key, value) :: properties, p =>
    jsonPrintObject properties (jsonPrintInternal value p (some key))

def jsonPrintArray : List Json → JsonPrinter → JsonPrinter
  | [], p => p
  | value :: elements, p => jsonPrintArray elements (jsonPrintInternal value p none)

end

def jsonPrint (p : JsonPrinter) (json : Json) : JsonPrinter := jsonPrintInternal json p none

end JsonPrinter
end ZoweCommon
