import ZoweCommon.Http.Parser

/-! The parser of the client for responses. -/
namespace ZoweCommon
namespace Http
namespace ClientResponse

open Ebcdic (destructivelyUnasciify)
open HttpRequestParser (sameText ASCII_COLON)

def HTTP_CLIENT_MAX_RESPONSE : ℤ := 65536

inductive ResponseState
  | RESP_STATUS_VERSION
  | RESP_STATUS_GAP1
  | RESP_STATUS_STATUS
  | RESP_STATUS_GAP2
  | RESP_STATUS_REASON
  | RESP_STATUS_CR_SEEN
  | HEADER_FIELD_NAME
  | HEADER_GAP1
  | HEADER_FIELD_CONTENT
  | HEADER_GAP2
  | HEADER_CR_SEEN
  | END_CR_SEEN
  | READING_FIXED_BODY
  | READING_CHUNK_HEADER
  | CHUNK_HEADER_CR_SEEN
  | READING_CHUNK_DATA
  | CHUNK_DATA_CR_SEEN
  | READING_CHUNK_TRAILER
  | CHUNK_TRAILER_CR_SEEN
  deriving DecidableEq, Repr

structure HttpClientResponse where
  statusCode : ℤ
  contentLength : ℤ
  headers : List HttpHeader
  body : Option (List Byte)
  deriving DecidableEq

/-- Of the arrays what is there up to their lengths; `content` is the whole storage of
`contentSize` bytes. -/
structure HttpResponseParser where
  state : ResponseState := .RESP_STATUS_VERSION
  version : List Byte := []
  statusReason : List Byte := []
  headerName : List Byte := []
  headerValue : List Byte := []
  headerChain : List HttpHeader := []
  isChunked : Bool := false
  contentType : Option (List Byte) := none
  specifiedContentLength : ℤ := -1
  remainingContentLength : ℤ := 0
  specifiedChunkLength : ℤ := 0
  remainingChunkLength : ℤ := 0
  contentSize : ℤ := 0
  content : List Byte := []
  httpStatusCode : ℤ := 0
  resp : Option HttpClientResponse := none
  deriving DecidableEq

def makeHttpResponseParser : HttpResponseParser := {}

/-- The parser of a session, and the response that it has delivered last. -/
structure HttpClientSession where
  responseParser : HttpResponseParser := makeHttpResponseParser
  response : Option HttpClientResponse := none
  deriving DecidableEq

/-- What comes of a read outside of a table or a literal, and of a number that is no `int`. -/
structure Unspecified where
  status : List Byte → ℤ
  native : List Byte → List Byte
  isChunked : HttpResponseParser → Bool
  specifiedContentLength : HttpResponseParser → ℤ
  contentType : HttpResponseParser → Option (List Byte)

/-- Storage of a size that is not negative. -/
def SLHAlloc (size : ℤ) : Exec (List Byte) :=
  if 0 ≤ size then return List.replicate size.toNat 0 else throw .undefinedBehaviour

namespace HttpResponseParser

variable (parser : HttpResponseParser)

def storeContent (index : ℤ) (c : Byte) : Exec (List Byte) :=
  if 0 ≤ index ∧ index < parser.contentSize then return parser.content.set index.toNat c
  else throw .undefinedBehaviour

/-- What `addResponseHeader` notes of a header for the body. -/
def noteHeader (newHeader : HttpHeader) : Exec HttpResponseParser := do
  if ← sameText newHeader.nativeName "Transfer-Encoding" then
    if ← sameText newHeader.nativeValue "chunked" then return { parser with isChunked := true }
    else return parser
  else if ← sameText newHeader.nativeName "Content-Length" then
    let n ← Ebcdic.atoi (.ofBytes newHeader.nativeValue)
    return { parser with specifiedContentLength := n.toInt }
  else if ← sameText newHeader.nativeName "Content-Type" then
    return { parser with contentType := some newHeader.nativeValue }
  else return parser

def addReadHeader : Exec HttpResponseParser := do
  let nativeName ← destructivelyUnasciify parser.headerName
  let nativeValue ← destructivelyUnasciify parser.headerValue
  let newHeader : HttpHeader :=
    { name := parser.headerName, nativeName, value := parser.headerValue, nativeValue }
  let parser ← parser.noteHeader newHeader
  return { parser with headerChain := parser.headerChain ++ [newHeader] }

end HttpResponseParser

/-- Only what is noted of a header can be left open by what is read of it. -/
def addResponseHeader (unspecified : Unspecified) (parser : HttpResponseParser) :
    HttpResponseParser :=
  match parser.addReadHeader with
  | .ok parser => parser
  | .error _ =>
    let newHeader : HttpHeader :=
      { name := parser.headerName
        nativeName := unspecified.native parser.headerName
        value := parser.headerValue
        nativeValue := unspecified.native parser.headerValue }
    { parser with
      isChunked := unspecified.isChunked parser
      specifiedContentLength := unspecified.specifiedContentLength parser
      contentType := unspecified.contentType parser
      headerChain := parser.headerChain ++ [newHeader] }

def readStatus (unspecified : Unspecified) (statusReason : List Byte) : ℤ :=
  let status : Exec (BitVec 32) := do
    let nativeStatusReason ← destructivelyUnasciify statusReason
    Ebcdic.atoi (.ofBytes nativeStatusReason)
  match status with
  | .ok n => n.toInt
  | .error _ => unspecified.status statusReason

def addHexDigit (specifiedChunkLength : ℤ) (value : ℕ) : ℤ :=
  if specifiedChunkLength = -1 then value else (16 * specifiedChunkLength + value).bmod (2 ^ 32)

namespace HttpClientSession

variable (unspecified : Unspecified) (session : HttpClientSession)

/-- The parser stays as it is. -/
def fail : Exec (Bool × HttpClientSession) := return (false, session)

def next (parser : HttpResponseParser) : Exec (Bool × HttpClientSession) :=
  return (true, { session with responseParser := parser })

def statusVersion (c : Byte) : Exec (Bool × HttpClientSession) :=
  let parser := session.responseParser
  if isWhitespace c then
    if parser.version.length < 1 then session.fail
    else session.next { parser with state := .RESP_STATUS_GAP1 }
  else if isAsciiPrintable c then
    if MAX_HTTP_VERSION ≤ parser.version.length then session.fail
    else do
      let version ← store (MAX_HTTP_VERSION + 8) parser.version c
      session.next { parser with version }
  else session.fail

/-- The characters that end a line are no white space here. -/
def statusGap1 (c : Byte) : Exec (Bool × HttpClientSession) :=
  let parser := session.responseParser
  if !isWhitespace c then
    session.next { parser with statusReason := [c], state := .RESP_STATUS_STATUS }
  else if isCR c || isLF c then session.fail
  else session.next parser

def statusStatus (c : Byte) : Exec (Bool × HttpClientSession) :=
  let parser := session.responseParser
  if isCR c || isLF c then session.fail
  else if isWhitespace c then
    session.next { parser with
      httpStatusCode := readStatus unspecified parser.statusReason
      state := .RESP_STATUS_GAP2 }
  else do
    let statusReason ← store (MAX_HTTP_VERSION + 8) parser.statusReason c
    session.next { parser with statusReason }

def statusGap2 (c : Byte) : Exec (Bool × HttpClientSession) :=
  let parser := session.responseParser
  if isCR c then session.next { parser with state := .RESP_STATUS_CR_SEEN }
  else if isLF c then session.fail
  else do
    let statusReason ← store (MAX_HTTP_VERSION + 8) parser.statusReason c
    if isWhitespace c then session.next { parser with statusReason }
    else session.next { parser with statusReason, state := .RESP_STATUS_REASON }

def statusReason (c : Byte) : Exec (Bool × HttpClientSession) :=
  let parser := session.responseParser
  if isCR c then session.next { parser with state := .RESP_STATUS_CR_SEEN }
  else if isAsciiPrintable c || isWhitespace c then do
    let statusReason ← store (MAX_HTTP_VERSION + 8) parser.statusReason c
    session.next { parser with statusReason }
  else session.fail

def statusCRSeen (c : Byte) : Exec (Bool × HttpClientSession) :=
  let parser := session.responseParser
  if isLF c then session.next { parser with headerName := [], state := .HEADER_FIELD_NAME }
  else session.fail

def headerFieldName (c : Byte) : Exec (Bool × HttpClientSession) :=
  let parser := session.responseParser
  if isCR c then
    if parser.headerName.length = 0 then session.next { parser with state := .END_CR_SEEN }
    else session.fail
  else if c = ASCII_COLON then
    if parser.headerName.length = 0 then session.fail
    else session.next { parser with state := .HEADER_GAP1 }
  else if isAsciiPrintable c then do
    let headerName ← store (MAX_HTTP_FIELD_NAME + 8) parser.headerName c
    session.next { parser with headerName }
  else session.fail

def headerGap1 (c : Byte) : Exec (Bool × HttpClientSession) :=
  let parser := session.responseParser
  if isWhitespace c then session.next parser
  else if isAsciiPrintable c then
    session.next { parser with headerValue := [c], state := .HEADER_FIELD_CONTENT }
  else session.fail

def headerFieldContent (c : Byte) : Exec (Bool × HttpClientSession) :=
  let parser := session.responseParser
  if isCR c then
    session.next (addResponseHeader unspecified { parser with state := .HEADER_CR_SEEN })
  else if isLF c then session.fail
  else if parser.headerValue.length < MAX_HTTP_FIELD_VALUE then do
    let headerValue ← store (MAX_HTTP_FIELD_VALUE + 8) parser.headerValue c
    session.next { parser with headerValue }
  else session.fail

def headerCRSeen (c : Byte) : Exec (Bool × HttpClientSession) :=
  let parser := session.responseParser
  if isLF c then
    session.next { parser with state := .HEADER_FIELD_NAME, headerName := [], headerValue := [] }
  else session.fail

/-- A body of so many bytes follows. -/
def startFixedBody (parser : HttpResponseParser) : Exec (Bool × HttpClientSession) := do
  let content ← SLHAlloc parser.specifiedContentLength
  session.next { parser with
    state := .READING_FIXED_BODY
    content
    contentSize := parser.specifiedContentLength
    remainingContentLength := parser.specifiedContentLength }

def startChunks (parser : HttpResponseParser) : Exec (Bool × HttpClientSession) := do
  let contentSize :=
    if 0 < parser.specifiedContentLength then parser.specifiedContentLength
    else HTTP_CLIENT_MAX_RESPONSE
  let content ← SLHAlloc contentSize
  let resp : HttpClientResponse :=
    { statusCode := parser.httpStatusCode
      contentLength := 0
      headers := parser.headerChain
      body := some content }
  session.next { parser with
    specifiedChunkLength := -1
    state := .READING_CHUNK_HEADER
    content
    contentSize
    resp := some resp }

/-- The length of a body that is not announced is what is `left` of the fragment. -/
def endCRSeen (c : Byte) (left : ℕ) : Exec (Bool × HttpClientSession) :=
  let parser := session.responseParser
  if isLF c then
    if parser.isChunked then session.startChunks parser
    else if 0 < parser.specifiedContentLength then session.startFixedBody parser
    else if 0 < left then session.startFixedBody { parser with specifiedContentLength := left }
    else
      let resp : HttpClientResponse :=
        { statusCode := parser.httpStatusCode
          contentLength := 0
          headers := parser.headerChain
          body := none }
      return (true, { responseParser := { parser with resp := some resp }, response := some resp })
  else session.fail

/-- The state is the same after the last byte of the body. -/
def readingFixedBody (c : Byte) : Exec (Bool × HttpClientSession) := do
  let parser := session.responseParser
  let content ← parser.storeContent
    (parser.specifiedContentLength - parser.remainingContentLength) c
  let parser := { parser with
    content
    remainingContentLength := parser.remainingContentLength - 1 }
  if parser.remainingContentLength ≤ 0 then
    let resp : HttpClientResponse :=
      { statusCode := parser.httpStatusCode
        contentLength := parser.specifiedContentLength
        headers := parser.headerChain
        body := some content }
    return (true, { responseParser := { parser with resp := some resp }, response := some resp })
  else session.next parser

def readingChunkHeader (c : Byte) : Exec (Bool × HttpClientSession) :=
  let parser := session.responseParser
  if isCR c then
    if parser.specifiedChunkLength = -1 then
      session.next { parser with state := .READING_CHUNK_TRAILER }
    else session.next { parser with state := .CHUNK_HEADER_CR_SEEN }
  else
    match Hexadecimal.digit? c with
    | some value =>
      session.next { parser with
        specifiedChunkLength := addHexDigit parser.specifiedChunkLength value }
    | none => session.fail

/-- With a length that is negative the state is the same. -/
def chunkHeaderCRSeen (c : Byte) : Exec (Bool × HttpClientSession) :=
  let parser := session.responseParser
  if isLF c then
    if 0 < parser.specifiedChunkLength then
      session.next { parser with
        remainingChunkLength := parser.specifiedChunkLength
        state := .READING_CHUNK_DATA }
    else if parser.specifiedChunkLength = 0 then
      session.next { parser with state := .READING_CHUNK_TRAILER }
    else session.next parser
  else session.fail

def readingChunkData (c : Byte) : Exec (Bool × HttpClientSession) :=
  let parser := session.responseParser
  if 0 < parser.remainingChunkLength then
    match parser.resp with
    | none => throw .undefinedBehaviour
    | some resp =>
      if resp.contentLength < parser.contentSize then do
        let content ← parser.storeContent resp.contentLength c
        session.next { parser with
          content
          remainingChunkLength := parser.remainingChunkLength - 1
          resp := some { resp with
            contentLength := resp.contentLength + 1
            body := some content } }
      else session.fail
  else if isCR c then session.next { parser with state := .CHUNK_DATA_CR_SEEN }
  else session.fail

def chunkDataCRSeen (c : Byte) : Exec (Bool × HttpClientSession) :=
  let parser := session.responseParser
  if isLF c then
    session.next { parser with specifiedChunkLength := -1, state := .READING_CHUNK_HEADER }
  else session.fail

def readingChunkTrailer (c : Byte) : Exec (Bool × HttpClientSession) :=
  let parser := session.responseParser
  if isCR c then session.next { parser with state := .CHUNK_TRAILER_CR_SEEN } else session.fail

/-- The parser is reset after such a response only. -/
def chunkTrailerCRSeen (c : Byte) : Exec (Bool × HttpClientSession) :=
  let parser := session.responseParser
  if isLF c then
    return (true, { responseParser := makeHttpResponseParser, response := parser.resp })
  else session.fail

/-- The loop body of `processHttpResponseFragment`, with so many bytes `left` after it. -/
def processByte (c : Byte) (left : ℕ) : Exec (Bool × HttpClientSession) :=
  match session.responseParser.state with
  | .RESP_STATUS_VERSION => session.statusVersion c
  | .RESP_STATUS_GAP1 => session.statusGap1 c
  | .RESP_STATUS_STATUS => session.statusStatus unspecified c
  | .RESP_STATUS_GAP2 => session.statusGap2 c
  | .RESP_STATUS_REASON => session.statusReason c
  | .RESP_STATUS_CR_SEEN => session.statusCRSeen c
  | .HEADER_FIELD_NAME => session.headerFieldName c
  | .HEADER_GAP1 => session.headerGap1 c
  | .HEADER_FIELD_CONTENT => session.headerFieldContent unspecified c
  | .HEADER_GAP2 => session.next session.responseParser
  | .HEADER_CR_SEEN => session.headerCRSeen c
  | .END_CR_SEEN => session.endCRSeen c left
  | .READING_FIXED_BODY => session.readingFixedBody c
  | .READING_CHUNK_HEADER => session.readingChunkHeader c
  | .CHUNK_HEADER_CR_SEEN => session.chunkHeaderCRSeen c
  | .READING_CHUNK_DATA => session.readingChunkData c
  | .CHUNK_DATA_CR_SEEN => session.chunkDataCRSeen c
  | .READING_CHUNK_TRAILER => session.readingChunkTrailer c
  | .CHUNK_TRAILER_CR_SEEN => session.chunkTrailerCRSeen c

end HttpClientSession

/-- Whether the fragment was accepted, and the session after it. -/
def processHttpResponseFragment (unspecified : Unspecified) (session : HttpClientSession) :
    List Byte → Exec (Bool × HttpClientSession)
  | [] => return (true, session)
  | c :: data => do
    let (goesOn, session) ← session.processByte unspecified c data.length
    if goesOn then processHttpResponseFragment unspecified session data
    else return (false, session)

/-- The fragments that a session receives, also after one that was not accepted. -/
def receive (unspecified : Unspecified) (session : HttpClientSession) :
    List (List Byte) → Exec (List Bool × HttpClientSession)
  | [] => return ([], session)
  | fragment :: fragments => do
    let (status, session) ← processHttpResponseFragment unspecified session fragment
    let (statuses, session) ← receive unspecified session fragments
    return (status :: statuses, session)

end ClientResponse
end Http
end ZoweCommon
