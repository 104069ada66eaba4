import ZoweCommon.Basic.NativeText
import ZoweCommon.Lib.Hexadecimal

/-! The parser of requests. -/
namespace ZoweCommon
namespace Http

open Ebcdic (literal destructivelyUnasciify compareIgnoringCase)

def MAX_HTTP_METHOD_NAME : ℕ := 256
def MAX_HTTP_VERSION : ℕ := 256
def MAX_HTTP_URI : ℕ := 1024
def MAX_HTTP_FIELD_NAME : ℕ := 1024
def MAX_HTTP_FIELD_VALUE : ℕ := 16384
def MAX_HTTP_CHUNK : ℕ := 2147483647

def HTTP_STATUS_BAD_REQUEST : ℕ := 400
def HTTP_STATUS_METHOD_NOT_FOUND : ℕ := 405
def HTTP_STATUS_ENTITY_TOO_LARGE : ℕ := 413

inductive HttpState
  | REQUEST_METHOD
  | REQUEST_GAP1
  | REQUEST_URI
  | REQUEST_GAP2
  | REQUEST_VERSION
  | REQUEST_CR_SEEN
  | HEADER_FIELD_NAME
  | HEADER_GAP1
  | HEADER_FIELD_CONTENT
  | HEADER_GAP2
  | HEADER_CR_SEEN
  | END_CR_SEEN
  | READING_FIXED_BODY
  | READING_CHUNK_SIZE
  | READING_CHUNK_EXTENSION
  | CHUNK_SIZE_CR_SEEN
  | READING_CHUNK_DATA
  | CHUNK_DATA_CR_SEEN
  | READING_CHUNK_TRAILER
  | CHUNK_TRAILER_CR_SEEN
  deriving DecidableEq, Repr

structure HttpHeader where
  name : List Byte
  nativeName : List Byte
  value : List Byte
  nativeValue : List Byte
  deriving DecidableEq

structure HttpRequest where
  method : List Byte
  uri : List Byte
  headerChain : List HttpHeader
  isWebSocket : Bool
  keepAlive : Bool
  contentLength : ℤ := 0
  contentBody : Option (List Byte) := none
  deriving DecidableEq

/-- `methodName` is the whole buffer, which is never cleared; of the other buffers what is there up
to their lengths, and of `content` what has been written. -/
structure HttpRequestParser where
  state : HttpState := .REQUEST_METHOD
  methodNameLength : ℕ := 0
  methodName : List Byte := List.replicate (MAX_HTTP_METHOD_NAME + 8) 0
  version : List Byte := []
  uri : List Byte := []
  headerName : List Byte := []
  headerValue : List Byte := []
  chunkSize : ℕ := 0
  headerChain : List HttpHeader := []
  isChunked : Bool := false
  isWebSocket : Bool := false
  contentType : Option (List Byte) := none
  specifiedContentLength : ℤ := -1
  remainingContentLength : ℤ := 0
  content : List Byte := []
  httpReasonCode : ℕ := 0
  requestQHead : List HttpRequest := []
  keepAlive : Bool := false
  deriving DecidableEq

def makeHttpRequestParser : HttpRequestParser := {}

def store (size : ℕ) (buffer : List Byte) (c : Byte) : Exec (List Byte) :=
  if buffer.length < size then return buffer ++ [c] else throw .undefinedBehaviour

def isLF (c : Byte) : Bool := c = 10

def isCR (c : Byte) : Bool := c = 13

def isWhitespace (c : Byte) : Bool := c ≠ 10 && c ≠ 13 && 1 < c.toNat && c.toNat ≤ 32

def isAsciiPrintable (c : Byte) : Bool := 32 < c.toNat && c.toNat < 127

namespace HttpRequestParser

variable (parser : HttpRequestParser)

def sameText (native : List Byte) (s : String) : Exec Bool := do
  let diff ← compareIgnoringCase (native ++ [0]) (literal s ++ [0]) native.length
  return diff = 0

/-- What `addRequestHeader` notes of a header for the body. -/
def noteHeader (newHeader : HttpHeader) : Exec HttpRequestParser := do
  if ← sameText newHeader.nativeName "Transfer-Encoding" then
    if ← sameText newHeader.nativeValue "chunked" then return { parser with isChunked := true }
    else return parser
  else if ← sameText newHeader.nativeName "Content-Length" then
    let n ← Ebcdic.atoi (.ofBytes newHeader.nativeValue)
    return { parser with specifiedContentLength := n.toInt }
  else if ← sameText newHeader.nativeName "Content-Type" then
    return { parser with contentType := some newHeader.nativeValue }
  else if ← sameText newHeader.nativeName "Upgrade" then
    if ← sameText newHeader.nativeValue "websocket" then return { parser with isWebSocket := true }
    else return parser
  else if ← sameText newHeader.nativeName "Connection" then
    if ← sameText newHeader.nativeValue "Keep-Alive" then return { parser with keepAlive := true }
    else return parser
  else return parser

def addRequestHeader : Exec HttpRequestParser := do
  let nativeName ← destructivelyUnasciify parser.headerName
  let nativeValue ← destructivelyUnasciify parser.headerValue
  let newHeader : HttpHeader :=
    { name := parser.headerName, nativeName, value := parser.headerValue, nativeValue }
  let parser ← parser.noteHeader newHeader
  return { parser with headerChain := parser.headerChain ++ [newHeader] }

def enqueueLastRequest : HttpRequestParser :=
  let newRequest : HttpRequest :=
    { method := parser.methodName.take parser.methodNameLength
      uri := parser.uri
      headerChain := parser.headerChain
      isWebSocket := parser.isWebSocket
      keepAlive := parser.keepAlive
      contentLength :=
        if parser.specifiedContentLength ≠ -1 then parser.specifiedContentLength else 0
      contentBody :=
        if 0 < parser.specifiedContentLength then
          some (parser.content.take parser.specifiedContentLength.toNat)
        else none }
  { parser with
    headerChain := []
    requestQHead := parser.requestQHead ++ [newRequest] }

def dequeueHttpRequest : Option HttpRequest × HttpRequestParser :=
  match parser.requestQHead with
  | [] => (none, parser)
  | request :: more => (some request, { parser with requestQHead := more })

def resetParserAndEnqueue : HttpRequestParser :=
  { parser.enqueueLastRequest with
    methodNameLength := 0
    uri := []
    version := []
    headerName := []
    headerValue := []
    isChunked := false
    isWebSocket := false
    specifiedContentLength := -1
    state := .REQUEST_METHOD
    keepAlive := false }

def validMethods : List (List Byte) :=
  ["GET", "POST", "PUT", "HEAD", "DELETE", "TRACE", "OPTIONS", "CONNECT"].map literal

/-- The whole buffer is taken for the method, up to the terminator. -/
def parserMethodIsValid : Exec Bool := do
  let nativeMethod ← destructivelyUnasciify (CString.ofBytes parser.methodName).bytes
  return validMethods.any fun s => s.isPrefixOf nativeMethod

/-- The reason why the parser does not go on. -/
def reject (code : ℕ) : Exec (Bool × HttpRequestParser) :=
  return (false, { parser with httpReasonCode := code })

def accept : Exec (Bool × HttpRequestParser) := return (true, parser)

def readingMethod (c : Byte) : Exec (Bool × HttpRequestParser) :=
  if isWhitespace c then
    if parser.methodNameLength < 1 then parser.reject HTTP_STATUS_BAD_REQUEST
    else do
      if ← parser.parserMethodIsValid then accept { parser with state := .REQUEST_GAP1 }
      else parser.reject HTTP_STATUS_BAD_REQUEST
  else if isAsciiPrintable c then
    if MAX_HTTP_METHOD_NAME ≤ parser.methodNameLength then
      parser.reject HTTP_STATUS_METHOD_NOT_FOUND
    else
      accept { parser with
        methodName := parser.methodName.set parser.methodNameLength c
        methodNameLength := parser.methodNameLength + 1 }
  else parser.reject HTTP_STATUS_BAD_REQUEST

/-- The characters that end a line are no white space here. -/
def gap1 (c : Byte) : Exec (Bool × HttpRequestParser) :=
  if !isWhitespace c then accept { parser with uri := [c], state := .REQUEST_URI }
  else if isCR c || isLF c then parser.reject HTTP_STATUS_BAD_REQUEST
  else parser.accept

def readingURI (c : Byte) : Exec (Bool × HttpRequestParser) :=
  if isCR c || isLF c then parser.reject HTTP_STATUS_BAD_REQUEST
  else if isWhitespace c then accept { parser with state := .REQUEST_GAP2 }
  else do
    let uri ← store (MAX_HTTP_URI + 8) parser.uri c
    accept { parser with uri }

def gap2 (c : Byte) : Exec (Bool × HttpRequestParser) :=
  if isCR c || isLF c then parser.reject HTTP_STATUS_BAD_REQUEST
  else if isWhitespace c then parser.accept
  else accept { parser with state := .REQUEST_VERSION, version := [c] }

def readingVersion (c : Byte) : Exec (Bool × HttpRequestParser) :=
  if isCR c then accept { parser with state := .REQUEST_CR_SEEN }
  else if isAsciiPrintable c then do
    let version ← store (MAX_HTTP_VERSION + 8) parser.version c
    accept { parser with version }
  else parser.reject HTTP_STATUS_BAD_REQUEST

def requestCRSeen (c : Byte) : Exec (Bool × HttpRequestParser) :=
  if isLF c then accept { parser with headerName := [], state := .HEADER_FIELD_NAME }
  else parser.reject HTTP_STATUS_BAD_REQUEST

def ASCII_COLON : Byte := 58

def headerFieldName (c : Byte) : Exec (Bool × HttpRequestParser) :=
  if isCR c then
    if parser.headerName.length = 0 then accept { parser with state := .END_CR_SEEN }
    else parser.reject HTTP_STATUS_BAD_REQUEST
  else if c = ASCII_COLON then
    if parser.headerName.length = 0 then parser.reject HTTP_STATUS_BAD_REQUEST
    else accept { parser with state := .HEADER_GAP1 }
  else if isAsciiPrintable c then do
    let headerName ← store (MAX_HTTP_FIELD_NAME + 8) parser.headerName c
    accept { parser with headerName }
  else parser.reject HTTP_STATUS_BAD_REQUEST

def headerGap1 (c : Byte) : Exec (Bool × HttpRequestParser) :=
  if isWhitespace c then parser.accept
  else if isCR c then accept { parser with state := .HEADER_CR_SEEN }
  else if isAsciiPrintable c then
    accept { parser with headerValue := [c], state := .HEADER_FIELD_CONTENT }
  else parser.reject HTTP_STATUS_BAD_REQUEST

def headerFieldContent (c : Byte) : Exec (Bool × HttpRequestParser) :=
  if isCR c then do
    let parser ← addRequestHeader { parser with state := .HEADER_CR_SEEN }
    parser.accept
  else if isLF c then parser.reject HTTP_STATUS_BAD_REQUEST
  else if parser.headerValue.length < MAX_HTTP_FIELD_VALUE then
    accept { parser with headerValue := parser.headerValue ++ [c] }
  else parser.reject HTTP_STATUS_ENTITY_TOO_LARGE

def headerCRSeen (c : Byte) : Exec (Bool × HttpRequestParser) :=
  if isLF c then
    accept { parser with state := .HEADER_FIELD_NAME, headerName := [], headerValue := [] }
  else parser.reject HTTP_STATUS_BAD_REQUEST

def endCRSeen (c : Byte) : Exec (Bool × HttpRequestParser) :=
  if isLF c then
    if parser.isChunked then
      accept { parser with
        state := .READING_CHUNK_SIZE
        chunkSize := 0
        specifiedContentLength := 0
        content := [] }
    else if parser.specifiedContentLength ≤ 0 then accept parser.resetParserAndEnqueue
    else
      accept { parser with
        state := .READING_FIXED_BODY
        content := []
        remainingContentLength := parser.specifiedContentLength }
  else parser.reject HTTP_STATUS_BAD_REQUEST

def storeContent (c : Byte) : HttpRequestParser :=
  { parser with
    content := parser.content ++ [c]
    remainingContentLength := parser.remainingContentLength - 1 }

def readingFixedBody (c : Byte) : Exec (Bool × HttpRequestParser) :=
  let parser := parser.storeContent c
  if parser.remainingContentLength ≤ 0 then accept parser.resetParserAndEnqueue
  else parser.accept

def readingChunkSize (c : Byte) : Exec (Bool × HttpRequestParser) :=
  match Hexadecimal.digit? c with
  | some value =>
    if (MAX_HTTP_CHUNK - value) / 16 < parser.chunkSize then parser.reject HTTP_STATUS_BAD_REQUEST
    else accept { parser with chunkSize := parser.chunkSize * 16 + value }
  | none =>
    if isCR c then accept { parser with state := .CHUNK_SIZE_CR_SEEN }
    else if c = 59 then accept { parser with state := .READING_CHUNK_EXTENSION }
    else parser.reject HTTP_STATUS_BAD_REQUEST

def readingChunkExtension (c : Byte) : Exec (Bool × HttpRequestParser) :=
  if isCR c then accept { parser with state := .CHUNK_SIZE_CR_SEEN } else parser.accept

/-- The body so far is copied into the storage for it and the chunk. -/
def chunkSizeCRSeen (c : Byte) : Exec (Bool × HttpRequestParser) :=
  if isLF c then
    if parser.chunkSize = 0 then accept { parser with state := .READING_CHUNK_TRAILER }
    else if parser.specifiedContentLength + parser.chunkSize < 2 ^ 31 then
      accept { parser with
        specifiedContentLength := parser.specifiedContentLength + parser.chunkSize
        remainingContentLength := parser.chunkSize
        state := .READING_CHUNK_DATA }
    else throw .undefinedBehaviour
  else parser.reject HTTP_STATUS_BAD_REQUEST

def readingChunkData (c : Byte) : Exec (Bool × HttpRequestParser) :=
  if parser.remainingContentLength ≤ 0 then
    if isCR c then accept { parser with state := .CHUNK_DATA_CR_SEEN }
    else parser.reject HTTP_STATUS_BAD_REQUEST
  else accept (parser.storeContent c)

def chunkDataCRSeen (c : Byte) : Exec (Bool × HttpRequestParser) :=
  if isLF c then accept { parser with state := .READING_CHUNK_SIZE, chunkSize := 0 }
  else parser.reject HTTP_STATUS_BAD_REQUEST

def readingChunkTrailer (c : Byte) : Exec (Bool × HttpRequestParser) :=
  if isCR c then accept { parser with state := .CHUNK_TRAILER_CR_SEEN }
  else parser.reject HTTP_STATUS_BAD_REQUEST

def chunkTrailerCRSeen (c : Byte) : Exec (Bool × HttpRequestParser) :=
  if isLF c then accept parser.resetParserAndEnqueue
  else parser.reject HTTP_STATUS_BAD_REQUEST

/-- The loop body of `processHttpFragment`. -/
def processByte (c : Byte) : Exec (Bool × HttpRequestParser) :=
  match parser.state with
  | .REQUEST_METHOD => parser.readingMethod c
  | .REQUEST_GAP1 => parser.gap1 c
  | .REQUEST_URI => parser.readingURI c
  | .REQUEST_GAP2 => parser.gap2 c
  | .REQUEST_VERSION => parser.readingVersion c
  | .REQUEST_CR_SEEN => parser.requestCRSeen c
  | .HEADER_FIELD_NAME => parser.headerFieldName c
  | .HEADER_GAP1 => parser.headerGap1 c
  | .HEADER_FIELD_CONTENT => parser.headerFieldContent c
  | .HEADER_GAP2 => parser.accept
  | .HEADER_CR_SEEN => parser.headerCRSeen c
  | .END_CR_SEEN => parser.endCRSeen c
  | .READING_FIXED_BODY => parser.readingFixedBody c
  | .READING_CHUNK_SIZE => parser.readingChunkSize c
  | .READING_CHUNK_EXTENSION => parser.readingChunkExtension c
  | .CHUNK_SIZE_CR_SEEN => parser.chunkSizeCRSeen c
  | .READING_CHUNK_DATA => parser.readingChunkData c
  | .CHUNK_DATA_CR_SEEN => parser.chunkDataCRSeen c
  | .READING_CHUNK_TRAILER => parser.readingChunkTrailer c
  | .CHUNK_TRAILER_CR_SEEN => parser.chunkTrailerCRSeen c

end HttpRequestParser

def processHttpFragment (parser : HttpRequestParser) : List Byte → Exec (Bool × HttpRequestParser)
  | [] => return (true, parser)
  | c :: data => do
    let (goesOn, parser) ← parser.processByte c
    if goesOn then processHttpFragment parser data else return (false, parser)

end Http
end ZoweCommon
