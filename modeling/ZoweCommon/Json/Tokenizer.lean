import ZoweCommon.Basic.CLibrary

/-! The tokenizer of the JSON parser, with its one character of look-ahead. -/
namespace ZoweCommon

open CLibrary CString

def EOF : ℤ := -1

def JSON_TOKEN_BUFFER_SIZE : ℕ := 16384

def JSON_TOKEN_BUFFER_SIZE_LIMIT : ℕ := 104857600

inductive JsonTokenType
  | JSON_TOKEN_NUMBER
  | JSON_TOKEN_STRING
  | JSON_TOKEN_BOOLEAN
  | JSON_TOKEN_COLON
  | JSON_TOKEN_COMMA
  | JSON_TOKEN_NULL
  | JSON_TOKEN_OBJECT_START
  | JSON_TOKEN_OBJECT_END
  | JSON_TOKEN_ARRAY_START
  | JSON_TOKEN_ARRAY_END
  | JSON_TOKEN_EOF
  | JSON_TOKEN_BAD_RESERVED_WORD
  | JSON_TOKEN_UNTERMINATED_STRING
  | JSON_TOKEN_BAD_NUMBER
  | JSON_TOKEN_LINE_COMMENT
  | JSON_TOKEN_BLOCK_COMMENT
  | JSON_TOKEN_UNTERMINATED_BLOCK_COMMENT
  | JSON_TOKEN_BAD_COMMENT
  | JSON_TOKEN_UNEXPECTED_CHAR
  | JSON_TOKEN_STRING_TOO_LONG
  | JSON_TOKEN_INT64
  | JSON_TOKEN_FLOAT
  | JSON_TOKEN_UNMATCHED
  deriving DecidableEq

structure JsonToken where
  type : JsonTokenType
  text : CString
  deriving DecidableEq

/-- `input` is what the character stream has not delivered yet; an `unreadChar` of 0 is none. -/
structure JsonTokenizer where
  input : List Byte
  unreadChar : ℤ
  lineNumber : ℕ
  columnNumber : ℕ
  lastTokenLineNumber : ℕ
  lastTokenColumnNumber : ℕ
  bufferSize : ℕ
  bufferSize_eq : ∃ k ≤ 12, bufferSize = JSON_TOKEN_BUFFER_SIZE * 2 ^ k

def makeJsonTokenizer (input : List Byte) : JsonTokenizer where
  input := input
  unreadChar := 0
  lineNumber := 1
  columnNumber := 0
  lastTokenLineNumber := 0
  lastTokenColumnNumber := 0
  bufferSize := JSON_TOKEN_BUFFER_SIZE
  bufferSize_eq := ⟨0, by omega, by simp⟩

namespace JsonTokenizer

def jsonTokenizerGrowBuffer (t : JsonTokenizer) : Option JsonTokenizer :=
  if 2147483647 / 2 ≤ t.bufferSize then none
  else if h : JSON_TOKEN_BUFFER_SIZE_LIMIT ≤ 2 * t.bufferSize then none
  else some { t with
    bufferSize := 2 * t.bufferSize
    bufferSize_eq := by
      obtain ⟨k, hk, hsize⟩ := t.bufferSize_eq
      refine ⟨k + 1, ?_, by rw [hsize]; ring⟩
      rcases Nat.lt_or_eq_of_le hk with hlt | rfl
      · exact hlt
      · rw [hsize] at h
        exact absurd (by decide) h }

/-- The next character of the stream. A `char` is signed. -/
def charStreamGet (t : JsonTokenizer) : ℤ × JsonTokenizer :=
  match t.input with
  | [] => (EOF, t)
  | b :: input => (b.toInt, { t with input := input })

def jsonTokenizerRead (t : JsonTokenizer) : ℤ × JsonTokenizer :=
  if t.unreadChar ≠ 0 then (t.unreadChar, { t with unreadChar := 0 })
  else
    let (c, t) := t.charStreamGet
    if c = 0x0A then (c, { t with lineNumber := t.lineNumber + 1, columnNumber := 0 })
    else (c, { t with columnNumber := t.columnNumber + 1 })

def jsonTokenizerLookahead (t : JsonTokenizer) : ℤ × JsonTokenizer :=
  if t.unreadChar ≠ 0 then (t.unreadChar, t)
  else
    let (c, t) := t.jsonTokenizerRead
    (c, { t with unreadChar := c })

def jsonTokenizerSkipWhitespace : ℕ → JsonTokenizer → Exec JsonTokenizer
  | 0, _ => throw .nonTermination
  | fuel + 1, t =>
    let (c, t) := t.jsonTokenizerLookahead
    if isspace c then jsonTokenizerSkipWhitespace fuel t.jsonTokenizerRead.2 else return t

/-- The byte that is stored for a character that was read. -/
def toByte (c : ℤ) : Byte := BitVec.ofInt 8 c

def makeJsonToken (type : JsonTokenType) (text : List Byte) : JsonToken := ⟨type, ofBytes text⟩

/-- What a backslash and a character stand for. -/
def unescape (c : ℤ) : Byte :=
  if c = 0x62 then 0x08
  else if c = 0x6E then 0x0A
  else if c = 0x66 then 0x0C
  else if c = 0x72 then 0x0D
  else if c = 0x74 then 0x09
  else toByte c

def ensureRoom (t : JsonTokenizer) (pos : ℕ) : Option JsonTokenizer :=
  if t.bufferSize ≤ pos then t.jsonTokenizerGrowBuffer else some t

def getStringTokenFrom : ℕ → JsonTokenizer → List Byte → Exec (JsonToken × JsonTokenizer)
  | 0, _, _ => throw .nonTermination
  | fuel + 1, t, buffer =>
    let (lookahead, t) := t.jsonTokenizerLookahead
    if lookahead = EOF ∨ lookahead = 0x0A then
      return (makeJsonToken .JSON_TOKEN_UNTERMINATED_STRING buffer, t)
    else if lookahead = 0x22 then
      return (makeJsonToken .JSON_TOKEN_STRING buffer, t.jsonTokenizerRead.2)
    else if lookahead = 0x5C then
      let (_, t) := t.jsonTokenizerRead
      let (c, t) := t.jsonTokenizerRead
      match t.ensureRoom buffer.length with
      | none => return (makeJsonToken .JSON_TOKEN_STRING_TOO_LONG buffer, t)
      | some t => getStringTokenFrom fuel t (buffer ++ [unescape c])
    else
      let (c, t) := t.jsonTokenizerRead
      if isprint c then
        match t.ensureRoom buffer.length with
        | none => return (makeJsonToken .JSON_TOKEN_STRING_TOO_LONG buffer, t)
        | some t => getStringTokenFrom fuel t (buffer ++ [toByte c])
      else getStringTokenFrom fuel t buffer

def getStringToken (fuel : ℕ) (t : JsonTokenizer) : Exec (JsonToken × JsonTokenizer) :=
  getStringTokenFrom fuel t.jsonTokenizerRead.2 []

def addTokenChar (t : JsonTokenizer) (buffer : List Byte) (c : ℤ) : List Byte :=
  if buffer.length < t.bufferSize then buffer ++ [toByte c] else buffer

def readWhile (class_ : ℤ → Bool) : ℕ → JsonTokenizer → List Byte → Exec (List Byte × JsonTokenizer)
  | 0, _, _ => throw .nonTermination
  | fuel + 1, t, buffer =>
    let (lookahead, t) := t.jsonTokenizerLookahead
    if class_ lookahead then
      let (c, t) := t.jsonTokenizerRead
      readWhile class_ fuel t (t.addTokenChar buffer c)
    else return (buffer, t)

def readSign (t : JsonTokenizer) : List Byte × JsonTokenizer :=
  let (lookahead, t) := t.jsonTokenizerLookahead
  if lookahead = 0x2D then
    let (c, t) := t.jsonTokenizerRead
    ([toByte c], t)
  else ([], t)

def getNumberTokenV1 (fuel : ℕ) (t : JsonTokenizer) : Exec (JsonToken × JsonTokenizer) := do
  let (buffer, t) := t.readSign
  let (lookahead, t) := t.jsonTokenizerLookahead
  let (c, t) := t.jsonTokenizerRead
  if isdigit lookahead then
    let (buffer, t) ← readWhile isdigit fuel t (buffer ++ [toByte c])
    return (makeJsonToken .JSON_TOKEN_NUMBER buffer, t)
  else
    return (makeJsonToken .JSON_TOKEN_BAD_NUMBER (t.addTokenChar buffer c), t)

def getNumberTokenV2 (fuel : ℕ) (t : JsonTokenizer) : Exec (JsonToken × JsonTokenizer) := do
  let (buffer, t) := t.readSign
  let (lookahead, t) := t.jsonTokenizerLookahead
  let (c, t) := t.jsonTokenizerRead
  if isdigit lookahead then
    let (buffer, t) ← readWhile isdigit fuel t (buffer ++ [toByte c])
    let (lookahead, t) := t.jsonTokenizerLookahead
    if lookahead = 0x2E then
      let (c, t) := t.jsonTokenizerRead
      let buffer := t.addTokenChar buffer c
      let (lookahead, t) := t.jsonTokenizerLookahead
      if isdigit lookahead then
        let (buffer, t) ← readWhile isdigit fuel t buffer
        return (makeJsonToken .JSON_TOKEN_FLOAT buffer, t)
      else return (makeJsonToken .JSON_TOKEN_BAD_NUMBER buffer, t)
    else return (makeJsonToken .JSON_TOKEN_INT64 buffer, t)
  else
    return (makeJsonToken .JSON_TOKEN_BAD_NUMBER (t.addTokenChar buffer c), t)

def getReservedWordToken (fuel : ℕ) (t : JsonTokenizer) : Exec (JsonToken × JsonTokenizer) := do
  let (buffer, t) ← readWhile isalpha fuel t []
  let text := (ofBytes buffer).bytes
  if text = ascii "false" ∨ text = ascii "true" then
    return (makeJsonToken .JSON_TOKEN_BOOLEAN buffer, t)
  else if text = ascii "null" then return (makeJsonToken .JSON_TOKEN_NULL buffer, t)
  else return (makeJsonToken .JSON_TOKEN_BAD_RESERVED_WORD buffer, t)

def getLineCommentToken (fuel : ℕ) (t : JsonTokenizer) : Exec (JsonToken × JsonTokenizer) := do
  let (_, t) := t.jsonTokenizerRead
  let (buffer, t) ← readWhile (fun lookahead => lookahead ≠ 0x0A && lookahead ≠ EOF) fuel t []
  return (makeJsonToken .JSON_TOKEN_LINE_COMMENT buffer, t)

def getBlockCommentTokenFrom :
    ℕ → JsonTokenizer → List Byte → ℤ → Exec (JsonToken × JsonTokenizer)
  | 0, _, _, _ => throw .nonTermination
  | fuel + 1, t, buffer, c =>
    if c = EOF then return (makeJsonToken .JSON_TOKEN_UNTERMINATED_BLOCK_COMMENT buffer, t)
    else
      let (slash, t) := if c = 0x2A then t.jsonTokenizerLookahead else (0, t)
      if slash = 0x2F then
        return (makeJsonToken .JSON_TOKEN_BLOCK_COMMENT buffer, t.jsonTokenizerRead.2)
      else
        let buffer := t.addTokenChar buffer c
        let (c, t) := t.jsonTokenizerRead
        getBlockCommentTokenFrom fuel t buffer c

def getBlockCommentToken (fuel : ℕ) (t : JsonTokenizer) : Exec (JsonToken × JsonTokenizer) :=
  let (_, t) := t.jsonTokenizerRead
  let (c, t) := t.jsonTokenizerRead
  getBlockCommentTokenFrom fuel t [] c

def getCommentToken (fuel : ℕ) (t : JsonTokenizer) : Exec (JsonToken × JsonTokenizer) :=
  let (slash, t) := t.jsonTokenizerRead
  let (lookahead, t) := t.jsonTokenizerLookahead
  if lookahead = 0x2F then getLineCommentToken fuel t
  else if lookahead = 0x2A then getBlockCommentToken fuel t
  else
    let (c, t) := t.jsonTokenizerRead
    let buffer := if isprint c then t.addTokenChar [toByte slash] c else [toByte slash]
    return (makeJsonToken .JSON_TOKEN_BAD_COMMENT buffer, t)

end JsonTokenizer
end ZoweCommon
