import ZoweCommon.Json.Tokenizer
import ZoweCommon.Json.Tree

/-! The recursive descent parser with its one token of look-ahead. -/
namespace ZoweCommon

open CLibrary CString

def JSON_PARSE_VERSION_1 : ℕ := 1

def JSON_PARSE_VERSION_2 : ℕ := 2

structure JsonParser where
  tokenizer : JsonTokenizer
  unreadToken : Option JsonToken
  jsonError : Option CString
  version : ℕ

/-- The version is left at zero. -/
def makeJsonParser (jsonString : List Byte) : JsonParser where
  tokenizer := makeJsonTokenizer jsonString
  unreadToken := none
  jsonError := none
  version := 0

def getTokenTypeString : JsonTokenType → List Byte
  | .JSON_TOKEN_NUMBER => ascii "number"
  | .JSON_TOKEN_STRING => ascii "string"
  | .JSON_TOKEN_BOOLEAN => ascii "boolean"
  | .JSON_TOKEN_COLON => ascii ":"
  | .JSON_TOKEN_COMMA => ascii ","
  | .JSON_TOKEN_NULL => ascii "null"
  | .JSON_TOKEN_OBJECT_START => ascii "\x7b"
  | .JSON_TOKEN_OBJECT_END => ascii "\x7d"
  | .JSON_TOKEN_ARRAY_START => ascii "["
  | .JSON_TOKEN_ARRAY_END => ascii "]"
  | .JSON_TOKEN_EOF => ascii "end of file"
  | .JSON_TOKEN_BAD_RESERVED_WORD => ascii "bad reserved word"
  | .JSON_TOKEN_UNTERMINATED_STRING => ascii "unterminated string"
  | .JSON_TOKEN_BAD_NUMBER => ascii "bad number"
  | .JSON_TOKEN_UNEXPECTED_CHAR => ascii "unexpected character"
  | .JSON_TOKEN_UNMATCHED => ascii "unmatched token"
  | .JSON_TOKEN_STRING_TOO_LONG => ascii "string too long"
  | .JSON_TOKEN_FLOAT => ascii "float"
  | _ => ascii "unknown token"

namespace JsonParser

open JsonTokenizer

/-- Only the first error is kept. -/
def jsonParseFail (p : JsonParser) (message : List Byte) : JsonParser :=
  if p.jsonError.isNone then
    let position := formatD p.tokenizer.lastTokenLineNumber ++ ascii ":" ++
      formatD p.tokenizer.lastTokenColumnNumber ++ ascii ": "
    { p with jsonError := some (ofBytes (snprintf 1024 (position ++ message))) }
  else p

def jsonValidateToken (p : JsonParser) (token : JsonToken) : JsonParser :=
  match token.type with
  | .JSON_TOKEN_UNTERMINATED_STRING =>
    p.jsonParseFail (ascii "unterminated string \"" ++ token.text.bytes)
  | .JSON_TOKEN_BAD_COMMENT =>
    p.jsonParseFail (ascii "invalid comment start " ++ token.text.bytes ++
      ascii ", must be // or /*")
  | .JSON_TOKEN_UNTERMINATED_BLOCK_COMMENT =>
    p.jsonParseFail (ascii "unterminated comment /*" ++ token.text.bytes)
  | .JSON_TOKEN_STRING_TOO_LONG => p.jsonParseFail (ascii "string length exceeded the limit")
  | _ => p

/-- The tokens of one character. The bytes 0xBA and 0xBB count as brackets. -/
def punctuation (c : ℤ) : Option JsonToken :=
  if c = 0x7B then some (makeJsonToken .JSON_TOKEN_OBJECT_START (ascii "\x7b"))
  else if c = 0x7D then some (makeJsonToken .JSON_TOKEN_OBJECT_END (ascii "\x7d"))
  else if c = 0x5B ∨ c = (0xBA : Byte).toInt then
    some (makeJsonToken .JSON_TOKEN_ARRAY_START (ascii "["))
  else if c = 0x5D ∨ c = (0xBB : Byte).toInt then
    some (makeJsonToken .JSON_TOKEN_ARRAY_END (ascii "]"))
  else if c = 0x3A then some (makeJsonToken .JSON_TOKEN_COLON (ascii ":"))
  else if c = 0x2C then some (makeJsonToken .JSON_TOKEN_COMMA (ascii ","))
  else none

/-- The token that begins with a character, and what is recorded if there is none. -/
def scanToken (fuel : ℕ) (p : JsonParser) (lookahead : ℤ) : Exec (JsonToken × JsonParser) :=
  let continueWith (scan : Exec (JsonToken × JsonTokenizer)) : Exec (JsonToken × JsonParser) := do
    let (token, tokenizer) ← scan
    return (token, { p with tokenizer := tokenizer })
  if lookahead = 0x22 then continueWith (getStringToken fuel p.tokenizer)
  else if isdigit lookahead || lookahead = 0x2D then
    continueWith (if JSON_PARSE_VERSION_2 ≤ p.version then getNumberTokenV2 fuel p.tokenizer
      else getNumberTokenV1 fuel p.tokenizer)
  else if isalpha lookahead then continueWith (getReservedWordToken fuel p.tokenizer)
  else match punctuation lookahead with
    | some token => return (token, { p with tokenizer := p.tokenizer.jsonTokenizerRead.2 })
    | none =>
      if lookahead = 0x2F then continueWith (getCommentToken fuel p.tokenizer)
      else if lookahead = EOF then
        return (makeJsonToken .JSON_TOKEN_EOF (ascii "EOF"),
          { p with tokenizer := p.tokenizer.jsonTokenizerRead.2 })
      else
        let message := ascii "unexpected character " ++ [toByte lookahead] ++ ascii "(0x" ++
          formatX 0 (BitVec.ofInt 32 lookahead).toNat ++ ascii ")\n"
        return (makeJsonToken .JSON_TOKEN_UNEXPECTED_CHAR [], p.jsonParseFail message)

/-- Comments are passed over. -/
def jsonNextToken : ℕ → JsonParser → Exec (JsonToken × JsonParser)
  | 0, _ => throw .nonTermination
  | fuel + 1, p =>
    match p.unreadToken with
    | some token => return (token, { p with unreadToken := none })
    | none => do
      let t ← p.tokenizer.jsonTokenizerSkipWhitespace fuel
      let (lookahead, t) := t.jsonTokenizerLookahead
      let t := { t with lastTokenLineNumber := t.lineNumber, lastTokenColumnNumber := t.columnNumber }
      let (token, p) ← scanToken fuel { p with tokenizer := t } lookahead
      if token.type = .JSON_TOKEN_LINE_COMMENT ∨ token.type = .JSON_TOKEN_BLOCK_COMMENT then
        let (token, p) ← jsonNextToken fuel p
        return (token, p.jsonValidateToken token)
      else return (token, p.jsonValidateToken token)

def jsonLookaheadToken (fuel : ℕ) (p : JsonParser) : Exec (JsonToken × JsonParser) :=
  match p.unreadToken with
  | some token => return (token, p)
  | none => do
    let (token, p) ← p.jsonNextToken fuel
    return (token, { p with unreadToken := some token })

def unmatchedMessage (tokenType : JsonTokenType) (token : JsonToken) : List Byte :=
  ascii "expected " ++ getTokenTypeString tokenType ++ ascii ", got " ++ match token.type with
  | .JSON_TOKEN_STRING =>
    getTokenTypeString token.type ++ ascii " \"" ++ token.text.bytes ++ ascii "\"\n"
  | .JSON_TOKEN_NUMBER | .JSON_TOKEN_BOOLEAN =>
    getTokenTypeString token.type ++ ascii " " ++ token.text.bytes ++ ascii "\n"
  | .JSON_TOKEN_NULL | .JSON_TOKEN_EOF => getTokenTypeString token.type ++ ascii "\n"
  | _ => token.text.bytes

def jsonMatchToken (fuel : ℕ) (p : JsonParser) (tokenType : JsonTokenType) :
    Exec (JsonToken × JsonParser) := do
  let (token, p) ← p.jsonNextToken fuel
  if token.type ≠ tokenType then
    let p := p.jsonParseFail (unmatchedMessage tokenType token)
    return ({ token with type := .JSON_TOKEN_UNMATCHED }, p)
  else return (token, p)

def jsonIsTokenUnmatched (token : JsonToken) : Bool := token.type = .JSON_TOKEN_UNMATCHED

/-- A value made from one token; `none` stands for the error of the parser. -/
def jsonGetScalar (fuel : ℕ) (p : JsonParser) (tokenType : JsonTokenType)
    (scalar : CString → Exec JsonScalar) : Exec (Option Json × JsonParser) := do
  let (token, p) ← p.jsonMatchToken fuel tokenType
  if jsonIsTokenUnmatched token then return (none, p)
  else
    let s ← scalar token.text
    return (some (.scalar s), p)

def jsonGetNumber (fuel : ℕ) (p : JsonParser) : Exec (Option Json × JsonParser) :=
  p.jsonGetScalar fuel .JSON_TOKEN_NUMBER fun text => do return .number (← atoi text)

def jsonGetInt64 (fuel : ℕ) (p : JsonParser) : Exec (Option Json × JsonParser) :=
  p.jsonGetScalar fuel .JSON_TOKEN_INT64 fun text => return .int64 (strtoll text)

def jsonGetFloat (fuel : ℕ) (p : JsonParser) : Exec (Option Json × JsonParser) :=
  p.jsonGetScalar fuel .JSON_TOKEN_FLOAT fun text => return .double (strtod text)

def jsonGetString (fuel : ℕ) (p : JsonParser) : Exec (Option Json × JsonParser) :=
  p.jsonGetScalar fuel .JSON_TOKEN_STRING fun text => return .string text

def jsonGetBoolean (fuel : ℕ) (p : JsonParser) : Exec (Option Json × JsonParser) :=
  p.jsonGetScalar fuel .JSON_TOKEN_BOOLEAN fun text => return .boolean (text.bytes = ascii "true")

def jsonGetNull (fuel : ℕ) (p : JsonParser) : Exec (Option Json × JsonParser) :=
  p.jsonGetScalar fuel .JSON_TOKEN_NULL fun _ => return .null

mutual

def jsonParse : ℕ → JsonParser → Exec (Option Json × JsonParser)
  | 0, _ => throw .nonTermination
  | fuel + 1, p => do
    let (lookahead, p) ← p.jsonLookaheadToken fuel
    match lookahead.type with
    | .JSON_TOKEN_NUMBER => p.jsonGetNumber fuel
    | .JSON_TOKEN_INT64 => p.jsonGetInt64 fuel
    | .JSON_TOKEN_FLOAT => p.jsonGetFloat fuel
    | .JSON_TOKEN_STRING => p.jsonGetString fuel
    | .JSON_TOKEN_BOOLEAN => p.jsonGetBoolean fuel
    | .JSON_TOKEN_NULL => p.jsonGetNull fuel
    | .JSON_TOKEN_OBJECT_START => jsonGetObject fuel p
    | .JSON_TOKEN_ARRAY_START => jsonGetArray fuel p
    | _ => return (none, p.jsonParseFail (ascii "unexpected " ++ lookahead.text.bytes))

def jsonGetObject : ℕ → JsonParser → Exec (Option Json × JsonParser)
  | 0, _ => throw .nonTermination
  | fuel + 1, p => do
    let (token, p) ← p.jsonMatchToken fuel .JSON_TOKEN_OBJECT_START
    if jsonIsTokenUnmatched token then return (none, p)
    match ← jsonGetProperties fuel p [] with
    | (none, p) => return (none, p)
    | (some properties, p) =>
      let (token, p) ← p.jsonMatchToken fuel .JSON_TOKEN_OBJECT_END
      if jsonIsTokenUnmatched token then return (none, p)
      return (some (.object properties), p)

/-- The loop over the properties, after those that are there. -/
def jsonGetProperties : ℕ → JsonParser → List (CString × Json) →
    Exec (Option (List (CString × Json)) × JsonParser)
  | 0, _, _ => throw .nonTermination
  | fuel + 1, p, properties => do
    let (lookahead, p) ← p.jsonLookaheadToken fuel
    if lookahead.type = .JSON_TOKEN_STRING then
      let (keyToken, p) ← p.jsonMatchToken fuel .JSON_TOKEN_STRING
      let (colonToken, p) ← p.jsonMatchToken fuel .JSON_TOKEN_COLON
      if jsonIsTokenUnmatched colonToken then return (none, p)
      match ← jsonParse fuel p with
      | (none, p) => return (none, p)
      | (some value, p) =>
        let properties := properties ++ [(keyToken.text, value)]
        let (lookahead, p) ← p.jsonLookaheadToken fuel
        if lookahead.type = .JSON_TOKEN_COMMA then
          let (_, p) ← p.jsonMatchToken fuel .JSON_TOKEN_COMMA
          jsonGetProperties fuel p properties
        else return (some properties, p)
    else return (some properties, p)

def jsonGetArray : ℕ → JsonParser → Exec (Option Json × JsonParser)
  | 0, _ => throw .nonTermination
  | fuel + 1, p => do
    let (token, p) ← p.jsonMatchToken fuel .JSON_TOKEN_ARRAY_START
    if jsonIsTokenUnmatched token then return (none, p)
    match ← jsonGetElements fuel p [] with
    | (none, p) => return (none, p)
    | (some elements, p) =>
      let (token, p) ← p.jsonMatchToken fuel .JSON_TOKEN_ARRAY_END
      if jsonIsTokenUnmatched token then return (none, p)
      return (some (.array elements), p)

/-- The loop over the elements, after those that are there. -/
def jsonGetElements : ℕ → JsonParser → List Json → Exec (Option (List Json) × JsonParser)
  | 0, _, _ => throw .nonTermination
  | fuel + 1, p, elements => do
    let (lookahead, p) ← p.jsonLookaheadToken fuel
    if lookahead.type ≠ .JSON_TOKEN_ARRAY_END then
      match ← jsonParse fuel p with
      | (none, p) => return (none, p)
      | (some element, p) =>
        let elements := elements ++ [element]
        let (lookahead, p) ← p.jsonLookaheadToken fuel
        if lookahead.type = .JSON_TOKEN_COMMA then
          let (_, p) ← p.jsonMatchToken fuel .JSON_TOKEN_COMMA
          jsonGetElements fuel p elements
        else return (some elements, p)
    else return (some elements, p)

end

end JsonParser

/-- The tree, or the message of the error. -/
def jsonParseUnterminatedString (fuel : ℕ) (jsonString : List Byte) : Exec (Except CString Json) := do
  let (json, p) ← (makeJsonParser jsonString).jsonParse fuel
  let (token, p) ← p.jsonMatchToken fuel .JSON_TOKEN_EOF
  match json, JsonParser.jsonIsTokenUnmatched token, p.jsonError with
  | some json, false, _ => return .ok json
  | _, _, some message => return .error message
  | _, _, none => throw .undefinedBehaviour

end ZoweCommon
