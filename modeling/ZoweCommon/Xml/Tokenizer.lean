import ZoweCommon.Basic.NativeText

/-! The tokens of an XML text, in the native code page. -/
namespace ZoweCommon
namespace Xml

open Ebcdic (literal)

/-- Why a run of the parser has no value: it never ends, it uses what is not there, or it stores
outside of an array. -/
inductive XmlFault
  | nonTermination
  | undefinedBehaviour
  | outOfBounds
  deriving DecidableEq, Repr

abbrev Run (α : Type) := Except XmlFault α

namespace Run

variable {α β : Type}

theorem ok_bind (a : α) (f : α → Run β) : (Except.ok a >>= f) = f a := rfl

theorem pure_eq_ok (a : α) : (pure a : Run α) = Except.ok a := rfl

theorem bind_eq_ok {x : Run α} {f : α → Run β} {b : β} :
    (x >>= f) = Except.ok b ↔ ∃ a, x = Except.ok a ∧ f a = Except.ok b := by
  cases x with
  | error fault => exact ⟨nofun, nofun⟩
  | ok a => exact ⟨fun h => ⟨a, rfl, h⟩, fun ⟨_, ha, h⟩ => Except.ok.inj ha ▸ h⟩

end Run

def CHAR_META_ALPHA : Byte := 0x02
def CHAR_META_WHITESPACE : Byte := 0x40

def ebcdicMetaData : List Byte :=
  [
   0x01, 0x01, 0x01, 0x01, 0x01, 0xC1, 0x01, 0x01, 0x01, 0x01, 0x01, 0x41, 0x41, 0x41, 0x01, 0x01,
   0x01, 0x01, 0x01, 0x01, 0x01, 0x41, 0x01, 0x01, 0x01, 0x01, 0x01, 0x01, 0x01, 0x01, 0x01, 0x01,
   0x01, 0x01, 0x01, 0x01, 0x01, 0x41, 0x01, 0x01, 0x01, 0x01, 0x01, 0x01, 0x01, 0x01, 0x01, 0x01,
   0x01, 0x01, 0x01, 0x01, 0x01, 0x01, 0x01, 0x01, 0x01, 0x01, 0x01, 0x01, 0x01, 0x01, 0x01, 0x01,
   0xC0, 0xC0, 0x00, 0x00, 0x00, 0x00, 0x00, 0x00, 0x00, 0x00, 0x00, 0x00, 0x00, 0x00, 0x00, 0x00,
   0x00, 0x00, 0x00, 0x00, 0x00, 0x00, 0x00, 0x00, 0x00, 0x00, 0x00, 0x00, 0x00, 0x00, 0x00, 0x00,
   0x00, 0x00, 0x00, 0x00, 0x00, 0x00, 0x00, 0x00, 0x00, 0x00, 0x00, 0x00, 0x00, 0x00, 0x00, 0x00,
   0x00, 0x00, 0x00, 0x00, 0x00, 0x00, 0x00, 0x00, 0x00, 0x00, 0x00, 0x00, 0x00, 0x00, 0x00, 0x00,
   0x00, 0x2A, 0x2A, 0x2A, 0x2A, 0x2A, 0x2A, 0x0A, 0x0A, 0x0A, 0x00, 0x00, 0x00, 0x00, 0x00, 0x00,
   0x00, 0x0A, 0x0A, 0x0A, 0x0A, 0x0A, 0x0A, 0x0A, 0x0A, 0x0A, 0x00, 0x00, 0x00, 0x00, 0x00, 0x00,
   0x00, 0x00, 0x0A, 0x0A, 0x0A, 0x0A, 0x0A, 0x0A, 0x0A, 0x0A, 0x00, 0x00, 0x00, 0x00, 0x00, 0x00,
   0x00, 0x00, 0x00, 0x00, 0x00, 0x00, 0x00, 0x00, 0x00, 0x00, 0x00, 0x00, 0x00, 0x00, 0x00, 0x00,
   0x00, 0x26, 0x26, 0x26, 0x26, 0x26, 0x26, 0x06, 0x06, 0x06, 0x00, 0x00, 0x00, 0x00, 0x00, 0x00,
   0x00, 0x06, 0x06, 0x06, 0x06, 0x06, 0x06, 0x06, 0x06, 0x06, 0x00, 0x00, 0x00, 0x00, 0x00, 0x00,
   0x00, 0x00, 0x06, 0x06, 0x06, 0x06, 0x06, 0x06, 0x06, 0x06, 0x00, 0x00, 0x00, 0x00, 0x00, 0x00,
   0x30, 0x30, 0x30, 0x30, 0x30, 0x30, 0x30, 0x30, 0x30, 0x30, 0x00, 0x00, 0x00, 0x00, 0x00, 0x00]

def isAlpha (c : Byte) : Bool := ebcdicMetaData.getD c.toNat 0 &&& CHAR_META_ALPHA != 0

def isDigit (c : Byte) : Bool := 0xF0 ≤ c.toNat && c.toNat ≤ 0xF9

def isWhitespace (c : Byte) : Bool := ebcdicMetaData.getD c.toNat 0 &&& CHAR_META_WHITESPACE != 0

def LESS : Byte := 0x4C
def GREATER : Byte := 0x6E
def SLASH : Byte := 0x61
def EXCLAMATION : Byte := 0x5A
def HYPHEN : Byte := 0x60
def UNDERSCORE : Byte := 0x6D
def COLON : Byte := 0x7A
def PERIOD : Byte := 0x4B
def EQUAL : Byte := 0x7E
def QUOTE : Byte := 0x7F
def APOSTROPHE : Byte := 0x7D
def AMPERSAND : Byte := 0x50
def SEMICOLON : Byte := 0x5E

/-- The first character of a name. -/
def startsId (c : Byte) : Bool := isAlpha c || c = UNDERSCORE || c = COLON

def continuesId (c : Byte) : Bool :=
  isAlpha c || isDigit c || c = UNDERSCORE || c = COLON || c = PERIOD || c = HYPHEN

def BAOS_MAX : ℕ := 8192

def XMLPARSER_CHAR_SEQUENCE_MAX : ℕ := 10

inductive TokenType
  | BROKEN
  | START_OPEN
  | END_OPEN
  | CLOSE
  | EMPTY_CLOSE
  | PCDATA
  | ID
  | WHITESPACE
  | ATTR_EQUAL
  | ATTR_VALUE
  | COMMENT
  | EOF
  deriving DecidableEq, Repr

structure XMLToken where
  type : TokenType
  bytes : Option CString := none
  deriving DecidableEq

inductive TokenState
  | NORMAL
  | TAG
  | CHAR
  deriving DecidableEq, Repr

/-- The input is what has not been read, with a character that was pushed back; behind its end
`safeRead` reads -1 again and again. Of `charSequence` there is what is up to its position. -/
structure XmlParser where
  tokenState : TokenState := .NORMAL
  charSequence : List Byte := []
  input : List Byte
  deriving DecidableEq

def makeXmlStringParser (s : List Byte) : XmlParser := { input := s }

/-- A character after those of a token; without room for it there is a message, and it is stored
all the same. -/
def writeBAOS (bytes : List Byte) (b : Byte) : Run (List Byte) :=
  if bytes.length < BAOS_MAX then return bytes ++ [b] else throw .outOfBounds

def storeChar (charSequence : List Byte) (b : Byte) : Run (List Byte) :=
  if charSequence.length < XMLPARSER_CHAR_SEQUENCE_MAX then return charSequence ++ [b]
  else throw .outOfBounds

/-- What is behind the comment, or `none` where it is not ended; from the end of the input on
nothing changes any more. -/
def readCommentTail (hyphenCount : Fin 3) : List Byte → Run (Option (List Byte))
  | [] => if hyphenCount = 2 then return none else throw .nonTermination
  | b :: input =>
    if hyphenCount = 2 then
      if b = GREATER then return some input else return none
    else readCommentTail (if b = HYPHEN then hyphenCount + 1 else hyphenCount) input

/-- A token of the characters of a kind. The token of another type, which the zero or the end of the
input has, stands for it. -/
def readWhile (p : Byte → Bool) (type : TokenType) (bytes : List Byte) :
    List Byte → Run (XMLToken × List Byte)
  | [] => return ({ type := .EOF }, [])
  | b :: input =>
    if b = 0 then return ({ type := .BROKEN }, input)
    else if p b then do
      let bytes ← writeBAOS bytes b
      readWhile p type bytes input
    else return ({ type, bytes := some (.ofBytes bytes) }, b :: input)

/-- The value of an attribute, if it is ended. -/
def readValue (firstChar : Byte) (bytes : List Byte) :
    List Byte → Run (Option (XMLToken × List Byte))
  | [] => return none
  | b :: input =>
    if b = 0 then return none
    else if b = firstChar then
      return some ({ type := .ATTR_VALUE, bytes := some (.ofBytes bytes) }, input)
    else do
      let bytes ← writeBAOS bytes b
      readValue firstChar bytes input

/-- The character for a sequence, without the semicolon. -/
def entity (charSequence : List Byte) : Option Byte :=
  if charSequence = literal "&lt" then some LESS
  else if charSequence = literal "&gt" then some GREATER
  else if charSequence = literal "&amp" then some AMPERSAND
  else none

def readText (tokenState : TokenState) (charSequence bytes : List Byte) :
    List Byte → Run (XMLToken × XmlParser)
  | [] => return ({ type := .EOF }, { tokenState, charSequence, input := [] })
  | b :: input =>
    if b = 0 then return ({ type := .BROKEN }, { tokenState, charSequence, input })
    else if b = LESS then
      return ({ type := .PCDATA, bytes := some (.ofBytes bytes) },
        { tokenState, charSequence, input := b :: input })
    else if b = AMPERSAND then
      if tokenState = .NORMAL then readText .CHAR [AMPERSAND] bytes input
      else return ({ type := .BROKEN }, { tokenState, charSequence, input })
    else if b = SEMICOLON ∧ tokenState = .CHAR then do
      let _ ← storeChar charSequence 0
      match entity charSequence with
      | some c => do
        let bytes ← writeBAOS bytes c
        readText .NORMAL charSequence bytes input
      | none => return ({ type := .BROKEN }, { tokenState, charSequence, input })
    else if tokenState = .CHAR then do
      let charSequence ← storeChar charSequence b
      readText tokenState charSequence bytes input
    else do
      let bytes ← writeBAOS bytes b
      readText tokenState charSequence bytes input

/-- What follows `<`. -/
def readOpen (p : XmlParser) (input : List Byte) : Run (Option (XMLToken × XmlParser)) :=
  match input with
  | [] => return some ({ type := .START_OPEN }, { p with tokenState := .TAG, input })
  | b :: more =>
    if b = SLASH then
      return some ({ type := .END_OPEN }, { p with tokenState := .TAG, input := more })
    else if b = EXCLAMATION then
      match more with
      | b₁ :: b₂ :: more =>
        if b₁ = HYPHEN ∧ b₂ = HYPHEN then do
          match ← readCommentTail 0 more with
          | none => return none
          | some input =>
            return some ({ type := .COMMENT }, { p with tokenState := .TAG, input })
        else return none
      | _ => return none
    else return some ({ type := .START_OPEN }, { p with tokenState := .TAG, input })

/-- A token in a tag that starts with a character other than `/`. -/
def readInTag (p : XmlParser) (b : Byte) (input : List Byte) :
    Run (Option (XMLToken × XmlParser)) :=
  if startsId b then do
    let bytes ← writeBAOS [] b
    let (t, input) ← readWhile continuesId .ID bytes input
    return some (t, { p with input })
  else if b = EQUAL then return some ({ type := .ATTR_EQUAL }, { p with input })
  else if b = QUOTE ∨ b = APOSTROPHE then do
    match ← readValue b [] input with
    | none => return none
    | some (t, input) => return some (t, { p with input })
  else if isWhitespace b then do
    let (t, input) ← readWhile isWhitespace .WHITESPACE [] input
    return some (t, { p with input })
  else return none

/-- A token, or `none` for the null pointer. -/
def getXMLToken (p : XmlParser) : Run (Option (XMLToken × XmlParser)) :=
  match p.input with
  | [] => return some ({ type := .EOF }, p)
  | b :: input =>
    if b = LESS then readOpen p input
    else if b = SLASH ∧ p.tokenState = .TAG then
      match input with
      | [] => return none
      | c :: input =>
        if c = GREATER then
          return some ({ type := .EMPTY_CLOSE }, { p with tokenState := .NORMAL, input })
        else return none
    else if b = GREATER then
      return some ({ type := .CLOSE }, { p with tokenState := .NORMAL, input })
    else if p.tokenState = .TAG then readInTag p b input
    else do
      let bytes ← writeBAOS [] b
      let (t, p) ← readText p.tokenState p.charSequence bytes input
      return some (t, p)

/-- The type of a token is read where there may be none. -/
def getTokenNoWSFrom : ℕ → XmlParser → Run (XMLToken × XmlParser)
  | 0, _ => throw .nonTermination
  | fuel + 1, p => do
    match ← getXMLToken p with
    | none => throw .undefinedBehaviour
    | some (t, p) =>
      if t.type ≠ .WHITESPACE ∧ t.type ≠ .COMMENT then return (t, p)
      else getTokenNoWSFrom fuel p

/-- Every token that is skipped has a character. -/
def getTokenNoWS (p : XmlParser) : Run (XMLToken × XmlParser) :=
  getTokenNoWSFrom (p.input.length + 1) p

end Xml
end ZoweCommon
