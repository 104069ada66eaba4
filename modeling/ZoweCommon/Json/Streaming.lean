import Mathlib.Data.List.DropRight
import ZoweCommon.Json.Printer

/-! The printer as its users call it: over any output, in any order of calls. -/
namespace ZoweCommon

open CLibrary CString JsonPrinter

def CCSID_UTF_8 : ℤ := 1208

/-- Where a text goes: to a file through `write`, which says how much it took, or to a user's
function, which may raise the error flag. -/
inductive WriteMethod (O : Type)
  | fd (write : O → List Byte → O × ℤ)
  | custom (customWrite : O → List Byte → O × Bool)

/-- `convertCharset` is the conversion to UTF-8, which fails with `none`. -/
structure StreamPrinter (O : Type) where
  writeMethod : WriteMethod O
  customObject : O
  convertCharset : ℤ → List Byte → Option (List Byte)
  mode : JsonCharsetConversion
  inputCCSID : ℤ
  depth : ℤ
  isStart : Bool
  isEnd : Bool
  isFirstLine : Bool
  prettyPrint : Bool
  isInMultipartString : Bool
  ioErrorFlag : Bool

namespace StreamPrinter

variable {O : Type}

/-- The conversion buffer is left out. -/
def jsonPrinterReset (p : StreamPrinter O) : StreamPrinter O :=
  { p with depth := 0, isStart := true, isFirstLine := true, mode := .JSON_MODE_NATIVE_CHARSET }

/-- What `safeMalloc` leaves in a printer, but for how it writes. -/
def cleared (writeMethod : WriteMethod O) (customObject : O)
    (convertCharset : ℤ → List Byte → Option (List Byte)) : StreamPrinter O where
  writeMethod := writeMethod
  customObject := customObject
  convertCharset := convertCharset
  mode := .JSON_MODE_NATIVE_CHARSET
  inputCCSID := 0
  depth := 0
  isStart := false
  isEnd := false
  isFirstLine := false
  prettyPrint := false
  isInMultipartString := false
  ioErrorFlag := false

section Make

variable (write : O → List Byte → O × ℤ) (customWrite : O → List Byte → O × Bool) (object : O)
  (convertCharset : ℤ → List Byte → Option (List Byte))

def makeJsonPrinter : StreamPrinter O :=
  (cleared (.fd write) object convertCharset).jsonPrinterReset

def makeUtf8JsonPrinter (inputCCSID : ℤ) : StreamPrinter O :=
  { makeJsonPrinter write object convertCharset with
    mode := .JSON_MODE_CONVERT_TO_UTF8, inputCCSID := inputCCSID }

def makeCustomJsonPrinter : StreamPrinter O :=
  (cleared (.custom customWrite) object convertCharset).jsonPrinterReset

def makeCustomUtf8JsonPrinter (inputCCSID : ℤ) : StreamPrinter O :=
  { makeCustomJsonPrinter customWrite object convertCharset with
    mode := .JSON_MODE_CONVERT_TO_UTF8, inputCCSID := inputCCSID }

def makeCustomNativeJsonPrinter (inputCCSID : ℤ) : StreamPrinter O :=
  { makeCustomJsonPrinter customWrite object convertCharset with
    mode := .JSON_MODE_NATIVE_CHARSET, inputCCSID := inputCCSID }

end Make

def jsonEnablePrettyPrint (p : StreamPrinter O) : StreamPrinter O := { p with prettyPrint := true }

def jsonSetIOErrorFlag (p : StreamPrinter O) : StreamPrinter O := { p with ioErrorFlag := true }

/-- The loop over `write`. It gives up after an error, and when it has called `write` once more than
`attempts` allows. -/
def writeLoop (write : O → List Byte → O × ℤ) : ℕ → O → List Byte → O × Bool
  | _, file, [] => (file, false)
  | attempts, file, c :: text =>
    let (file, newWriteReturn) := write file (c :: text)
    if newWriteReturn < 0 then (file, true)
    else match attempts with
      | 0 => (file, true)
      | attempts + 1 => writeLoop write attempts file ((c :: text).drop newWriteReturn.toNat)

def writeOut : WriteMethod O → O → List Byte → O × Bool
  | .fd write, file, text => writeLoop write 10 file text
  | .custom customWrite, object, text => customWrite object text

def jsonWriteBufferInternal (p : StreamPrinter O) (text : List Byte) : StreamPrinter O :=
  if p.ioErrorFlag then p
  else
    let (object, error) := writeOut p.writeMethod p.customObject text
    { p with customObject := object, ioErrorFlag := error }

def writeChunk (p : StreamPrinter O) (chunk : List Byte) : StreamPrinter O :=
  if chunk.length > 0 then p.jsonWriteBufferInternal chunk else p

/-- The chunk is what was passed over since the last escape. -/
def writeBufferWithEscapingFrom (p : StreamPrinter O) (chunk : List Byte) :
    List Byte → StreamPrinter O
  | [] => p.writeChunk chunk
  | c :: text =>
    let next := UTF8_GET_NEXT_CHAR c
    if needsEscape next.1 then
      let p := p.writeChunk chunk
      let p := p.jsonWriteBufferInternal (escapeSequence next.1)
      writeBufferWithEscapingFrom p [] ((c :: text).drop next.2)
    else
      writeBufferWithEscapingFrom p (chunk ++ (c :: text).take next.2) ((c :: text).drop next.2)
termination_by text => text.length
decreasing_by
  all_goals
    have := one_le_width c
    simp only [List.length_drop, List.length_cons]
    omega

def writeBufferWithEscaping (p : StreamPrinter O) (text : List Byte) : StreamPrinter O :=
  p.writeBufferWithEscapingFrom [] text

def jsonWriteEscapedString (p : StreamPrinter O) (s : List Byte) : StreamPrinter O :=
  if (s.filter isSpecialChar).length > 0 then p.jsonWriteBufferInternal (s.flatMap escapeNative)
  else p.jsonWriteBufferInternal s

def convertToUtf8 (p : StreamPrinter O) (text : List Byte) (inputCCSID : ℤ) : Option (List Byte) :=
  p.convertCharset inputCCSID text

def jsonConvertAndWriteBuffer (p : StreamPrinter O) (text : List Byte) (escape : Bool)
    (inputCCSID : ℤ) : StreamPrinter O :=
  if p.ioErrorFlag then p
  else match p.mode with
    | .JSON_MODE_CONVERT_TO_UTF8 =>
      match if inputCCSID ≠ CCSID_UTF_8 then p.convertToUtf8 text inputCCSID else some text with
      | none => p
      | some text =>
        if escape then p.writeBufferWithEscaping text else p.jsonWriteBufferInternal text
    | .JSON_MODE_NATIVE_CHARSET =>
      if escape then p.jsonWriteEscapedString text else p.jsonWriteBufferInternal text

/-- A text of the source code. -/
def jsonWrite (p : StreamPrinter O) (text : List Byte) : StreamPrinter O :=
  p.jsonConvertAndWriteBuffer text false CCSID_UTF_8

def jsonIndent (p : StreamPrinter O) : StreamPrinter O :=
  (fun p : StreamPrinter O => p.jsonWrite indentString)^[p.depth.toNat] p

def jsonNewLine (p : StreamPrinter O) : StreamPrinter O :=
  let p := if p.isEnd then { p with isEnd := false }
    else if p.isStart then { p with isStart := false }
    else p.jsonWrite (ascii ",")
  if p.prettyPrint then (p.jsonWrite (ascii "\n")).jsonIndent else p

def jsonWriteInt (value : BitVec 32) (p : StreamPrinter O) : StreamPrinter O :=
  p.jsonWrite (snprintf 64 (formatD value.toInt))

def jsonWriteUInt (value : BitVec 32) (p : StreamPrinter O) : StreamPrinter O :=
  p.jsonWrite (snprintf 64 (formatD value.toNat))

def jsonWriteInt64 (value : BitVec 64) (p : StreamPrinter O) : StreamPrinter O :=
  p.jsonWrite (snprintf 64 (formatD value.toInt))

def jsonWriteDouble (value : BitVec 64) (p : StreamPrinter O) : StreamPrinter O :=
  p.jsonWrite (snprintf 64 (formatF value))

def jsonWriteBoolean (value : BitVec 32) (p : StreamPrinter O) : StreamPrinter O :=
  p.jsonWrite (if value ≠ 0 then ascii "true" else ascii "false")

def jsonWriteNull (p : StreamPrinter O) : StreamPrinter O := p.jsonWrite (ascii "null")

def jsonWriteQuotedUnterminatedString (s : List Byte) (p : StreamPrinter O) : StreamPrinter O :=
  let p := p.jsonWrite (ascii "\"")
  let p := p.jsonConvertAndWriteBuffer s true p.inputCCSID
  p.jsonWrite (ascii "\"")

def jsonWriteQuotedString (s : CString) (p : StreamPrinter O) : StreamPrinter O :=
  jsonWriteQuotedUnterminatedString s.bytes p

def jsonWriteKeyAndSemicolon (p : StreamPrinter O) : Option CString → StreamPrinter O
  | some key =>
    let p := p.jsonWriteQuotedString key
    if p.prettyPrint then p.jsonWrite (ascii ": ") else p.jsonWrite (ascii ":")
  | none => p

def jsonStartValue (p : StreamPrinter O) (keyOrNull : Option CString) : StreamPrinter O :=
  let p := if p.isFirstLine then { p with isFirstLine := false } else p.jsonNewLine
  p.jsonWriteKeyAndSemicolon keyOrNull

def jsonStart (bracket : List Byte) (p : StreamPrinter O) (keyOrNull : Option CString) :
    StreamPrinter O :=
  if p.ioErrorFlag then p
  else
    let p := (p.jsonStartValue keyOrNull).jsonWrite bracket
    { p with depth := p.depth + 1, isStart := true, isEnd := false }

def jsonEnd (bracket : List Byte) (p : StreamPrinter O) : StreamPrinter O :=
  if p.ioErrorFlag then p
  else
    let p := { p with depth := p.depth - 1, isStart := false, isEnd := true }
    p.jsonNewLine.jsonWrite bracket

def jsonStartObject : StreamPrinter O → Option CString → StreamPrinter O := jsonStart (ascii "\x7b")
def jsonEndObject : StreamPrinter O → StreamPrinter O := jsonEnd (ascii "\x7d")
def jsonStartArray : StreamPrinter O → Option CString → StreamPrinter O := jsonStart (ascii "[")
def jsonEndArray : StreamPrinter O → StreamPrinter O := jsonEnd (ascii "]")

def jsonAdd (write : StreamPrinter O → StreamPrinter O) (p : StreamPrinter O)
    (keyOrNull : Option CString) : StreamPrinter O :=
  if p.ioErrorFlag then p else write (p.jsonStartValue keyOrNull)

def jsonAddString (p : StreamPrinter O) (keyOrNull : Option CString) (value : CString) :
    StreamPrinter O :=
  jsonAdd (jsonWriteQuotedString value) p keyOrNull

def jsonAddUnterminatedJSONString (p : StreamPrinter O) (keyOrNull : Option CString)
    (validJsonValue : List Byte) : StreamPrinter O :=
  jsonAdd (fun p => p.jsonConvertAndWriteBuffer validJsonValue false p.inputCCSID) p keyOrNull

def jsonAddJSONString (p : StreamPrinter O) (keyOrNull : Option CString)
    (validJsonValue : CString) : StreamPrinter O :=
  p.jsonAddUnterminatedJSONString keyOrNull validJsonValue.bytes

def jsonStartMultipartString (p : StreamPrinter O) (keyOrNull : Option CString) :
    StreamPrinter O :=
  jsonAdd (fun p => { p.jsonWrite (ascii "\"") with isInMultipartString := true }) p keyOrNull

def jsonAppendUnterminatedStringPart (p : StreamPrinter O) (value : List Byte) : StreamPrinter O :=
  if p.ioErrorFlag then p
  else if !p.isInMultipartString then p
  else p.jsonConvertAndWriteBuffer value true p.inputCCSID

def jsonAppendStringPart (p : StreamPrinter O) (s : CString) : StreamPrinter O :=
  p.jsonAppendUnterminatedStringPart s.bytes

def jsonEndMultipartString (p : StreamPrinter O) : StreamPrinter O :=
  if p.ioErrorFlag then p
  else if !p.isInMultipartString then p
  else { p.jsonWrite (ascii "\"") with isInMultipartString := false }

def jsonAddUnterminatedString (p : StreamPrinter O) (keyOrNull : Option CString)
    (value : List Byte) : StreamPrinter O :=
  jsonAdd (jsonWriteQuotedUnterminatedString value) p keyOrNull

/-- What is left without the characters at the end that are below a blank, as a `char` is. -/
def hideControlCharacters (value : List Byte) : List Byte :=
  value.rdropWhile fun c => c.toInt < 0x20

def jsonAddLimitedString (p : StreamPrinter O) (keyOrNull : Option CString) (value : List Byte) :
    StreamPrinter O :=
  jsonAdd (jsonWriteQuotedUnterminatedString (hideControlCharacters value)) p keyOrNull

def jsonAddBoolean (p : StreamPrinter O) (keyOrNull : Option CString) (value : BitVec 32) :
    StreamPrinter O :=
  jsonAdd (jsonWriteBoolean value) p keyOrNull

def jsonAddNull (p : StreamPrinter O) (keyOrNull : Option CString) : StreamPrinter O :=
  jsonAdd jsonWriteNull p keyOrNull

def jsonAddUInt (p : StreamPrinter O) (keyOrNull : Option CString) (value : BitVec 32) :
    StreamPrinter O :=
  jsonAdd (jsonWriteUInt value) p keyOrNull

def jsonAddInt (p : StreamPrinter O) (keyOrNull : Option CString) (value : BitVec 32) :
    StreamPrinter O :=
  jsonAdd (jsonWriteInt value) p keyOrNull

def jsonAddInt64 (p : StreamPrinter O) (keyOrNull : Option CString) (value : BitVec 64) :
    StreamPrinter O :=
  jsonAdd (jsonWriteInt64 value) p keyOrNull

def jsonAddDouble (p : StreamPrinter O) (keyOrNull : Option CString) (value : BitVec 64) :
    StreamPrinter O :=
  jsonAdd (jsonWriteDouble value) p keyOrNull

/-! Sequences of calls -/

inductive Call
  | jsonPrinterReset
  | jsonEnablePrettyPrint
  | jsonSetIOErrorFlag
  | jsonStartObject (keyOrNull : Option CString)
  | jsonEndObject
  | jsonStartArray (keyOrNull : Option CString)
  | jsonEndArray
  | jsonAddString (keyOrNull : Option CString) (value : CString)
  | jsonAddJSONString (keyOrNull : Option CString) (validJsonValue : CString)
  | jsonAddUnterminatedJSONString (keyOrNull : Option CString) (validJsonValue : List Byte)
  | jsonAddUnterminatedString (keyOrNull : Option CString) (value : List Byte)
  | jsonAddLimitedString (keyOrNull : Option CString) (value : List Byte)
  | jsonStartMultipartString (keyOrNull : Option CString)
  | jsonAppendStringPart (s : CString)
  | jsonAppendUnterminatedStringPart (value : List Byte)
  | jsonEndMultipartString
  | jsonAddBoolean (keyOrNull : Option CString) (value : BitVec 32)
  | jsonAddNull (keyOrNull : Option CString)
  | jsonAddUInt (keyOrNull : Option CString) (value : BitVec 32)
  | jsonAddInt (keyOrNull : Option CString) (value : BitVec 32)
  | jsonAddInt64 (keyOrNull : Option CString) (value : BitVec 64)
  | jsonAddDouble (keyOrNull : Option CString) (value : BitVec 64)

def perform (p : StreamPrinter O) : Call → StreamPrinter O
  | .jsonPrinterReset => p.jsonPrinterReset
  | .jsonEnablePrettyPrint => p.jsonEnablePrettyPrint
  | .jsonSetIOErrorFlag => p.jsonSetIOErrorFlag
  | .jsonStartObject key => p.jsonStartObject key
  | .jsonEndObject => p.jsonEndObject
  | .jsonStartArray key => p.jsonStartArray key
  | .jsonEndArray => p.jsonEndArray
  | .jsonAddString key value => p.jsonAddString key value
  | .jsonAddJSONString key value => p.jsonAddJSONString key value
  | .jsonAddUnterminatedJSONString key value => p.jsonAddUnterminatedJSONString key value
  | .jsonAddUnterminatedString key value => p.jsonAddUnterminatedString key value
  | .jsonAddLimitedString key value => p.jsonAddLimitedString key value
  | .jsonStartMultipartString key => p.jsonStartMultipartString key
  | .jsonAppendStringPart s => p.jsonAppendStringPart s
  | .jsonAppendUnterminatedStringPart value => p.jsonAppendUnterminatedStringPart value
  | .jsonEndMultipartString => p.jsonEndMultipartString
  | .jsonAddBoolean key value => p.jsonAddBoolean key value
  | .jsonAddNull key => p.jsonAddNull key
  | .jsonAddUInt key value => p.jsonAddUInt key value
  | .jsonAddInt key value => p.jsonAddInt key value
  | .jsonAddInt64 key value => p.jsonAddInt64 key value
  | .jsonAddDouble key value => p.jsonAddDouble key value

def performAll (p : StreamPrinter O) (calls : List Call) : StreamPrinter O := calls.foldl perform p

/-- A printer that no call has been made to yet. -/
inductive Made : StreamPrinter O → Prop
  | makeJsonPrinter (write : O → List Byte → O × ℤ) (object : O)
      (convertCharset : ℤ → List Byte → Option (List Byte)) :
      Made (makeJsonPrinter write object convertCharset)
  | makeUtf8JsonPrinter (write : O → List Byte → O × ℤ) (object : O)
      (convertCharset : ℤ → List Byte → Option (List Byte)) (inputCCSID : ℤ) :
      Made (makeUtf8JsonPrinter write object convertCharset inputCCSID)
  | makeCustomJsonPrinter (customWrite : O → List Byte → O × Bool) (object : O)
      (convertCharset : ℤ → List Byte → Option (List Byte)) :
      Made (makeCustomJsonPrinter customWrite object convertCharset)
  | makeCustomUtf8JsonPrinter (customWrite : O → List Byte → O × Bool) (object : O)
      (convertCharset : ℤ → List Byte → Option (List Byte)) (inputCCSID : ℤ) :
      Made (makeCustomUtf8JsonPrinter customWrite object convertCharset inputCCSID)
  | makeCustomNativeJsonPrinter (customWrite : O → List Byte → O × Bool) (object : O)
      (convertCharset : ℤ → List Byte → Option (List Byte)) (inputCCSID : ℤ) :
      Made (makeCustomNativeJsonPrinter customWrite object convertCharset inputCCSID)

/-- A printer that is fresh, or has been reset after any calls; pretty printing may be turned on. -/
inductive Ready : StreamPrinter O → Prop
  | made {p : StreamPrinter O} (h : Made p) : Ready p
  | reset {p : StreamPrinter O} (h : Made p) (calls : List Call) :
      Ready (p.performAll calls).jsonPrinterReset
  | pretty {p : StreamPrinter O} (h : Ready p) : Ready p.jsonEnablePrettyPrint

end StreamPrinter
end ZoweCommon
