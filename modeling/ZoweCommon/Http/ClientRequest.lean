import ZoweCommon.Basic.Base64
import ZoweCommon.Http.RequestLines

/-! The requests of the client, and the bytes that are written of one. -/
namespace ZoweCommon
namespace HttpClient

open Base64 (encodeBase64)
open CLibrary (snprintf formatD)
open Ebcdic (literal)
open Http (CRLF)

def HTTP_CLIENT_INVALID_ARGUMENT : ℕ := 1
def HTTP_CLIENT_NO_REQUEST : ℕ := 12

def ebcdic_to_ascii : List Byte :=
  [
   0x00, 0x01, 0x02, 0x03, 0x9C, 0x09, 0x86, 0x7F, 0x97, 0x8D, 0x8E, 0x0B, 0x0C, 0x0D, 0x0E, 0x0F,
   0x10, 0x11, 0x12, 0x13, 0x9D, 0x85, 0x08, 0x87, 0x18, 0x19, 0x92, 0x8F, 0x1C, 0x1D, 0x1E, 0x1F,
   0x80, 0x81, 0x82, 0x83, 0x84, 0x0A, 0x17, 0x1B, 0x88, 0x89, 0x8A, 0x8B, 0x8C, 0x05, 0x06, 0x07,
   0x90, 0x91, 0x16, 0x93, 0x94, 0x95, 0x96, 0x04, 0x98, 0x99, 0x9A, 0x9B, 0x14, 0x15, 0x9E, 0x1A,
   0x20, 0xA0, 0xE2, 0xE4, 0xE0, 0xE1, 0xE3, 0xE5, 0xE7, 0xF1, 0xA2, 0x2E, 0x3C, 0x28, 0x2B, 0x7C,
   0x26, 0xE9, 0xEA, 0xEB, 0xE8, 0xED, 0xEE, 0xEF, 0xEC, 0xDF, 0x21, 0x24, 0x2A, 0x29, 0x3B, 0x5E,
   0x2D, 0x2F, 0xC2, 0xC4, 0xC0, 0xC1, 0xC3, 0xC5, 0xC7, 0xD1, 0xA6, 0x2C, 0x25, 0x5F, 0x3E, 0x3F,
   0xF8, 0xC9, 0xCA, 0xCB, 0xC8, 0xCD, 0xCE, 0xCF, 0xCC, 0x60, 0x3A, 0x23, 0x40, 0x27, 0x3D, 0x22,
   0xD8, 0x61, 0x62, 0x63, 0x64, 0x65, 0x66, 0x67, 0x68, 0x69, 0xAB, 0xBB, 0xF0, 0xFD, 0xFE, 0xB1,
   0xB0, 0x6A, 0x6B, 0x6C, 0x6D, 0x6E, 0x6F, 0x70, 0x71, 0x72, 0xAA, 0xBA, 0xE6, 0xB8, 0xC6, 0xA4,
   0xB5, 0x7E, 0x73, 0x74, 0x75, 0x76, 0x77, 0x78, 0x79, 0x7A, 0xA1, 0xBF, 0xD0, 0x5B, 0xDE, 0xAE,
   0xAC, 0xA3, 0xA5, 0xB7, 0xA9, 0xA7, 0xB6, 0xBC, 0xBD, 0xBE, 0xDD, 0xA8, 0xAF, 0x5D, 0xB4, 0xD7,
   0x7B, 0x41, 0x42, 0x43, 0x44, 0x45, 0x46, 0x47, 0x48, 0x49, 0xAD, 0xF4, 0xF6, 0xF2, 0xF3, 0xF5,
   0x7D, 0x4A, 0x4B, 0x4C, 0x4D, 0x4E, 0x4F, 0x50, 0x51, 0x52, 0xB9, 0xFB, 0xFC, 0xF9, 0xFA, 0xFF,
   0x5C, 0xF7, 0x53, 0x54, 0x55, 0x56, 0x57, 0x58, 0x59, 0x5A, 0xB2, 0xD4, 0xD6, 0xD2, 0xD3, 0xD5,
   0x30, 0x31, 0x32, 0x33, 0x34, 0x35, 0x36, 0x37, 0x38, 0x39, 0xB4, 0xDB, 0xDC, 0xD9, 0xDA, 0x9F]

def e2a (buffer : List Byte) : List Byte := buffer.map (Ebcdic.translate ebcdic_to_ascii)

structure HttpHeader where
  nativeName : CString
  nativeValue : Option CString
  intValue : BitVec 32 := 0

structure HttpRequest where
  method : CString
  uri : CString
  headerChain : List HttpHeader := []
  contentLength : BitVec 32 := 0
  contentBody : Option (List Byte) := none

structure HttpClientSession where
  request : Option HttpRequest := none

section Headers

variable (request : HttpRequest)

def requestStringHeader (name value : CString) : HttpRequest :=
  { request with
    headerChain := request.headerChain ++ [{ nativeName := name, nativeValue := some value }] }

def requestIntHeader (name : CString) (value : BitVec 32) : HttpRequest :=
  { request with
    headerChain := request.headerChain ++
      [{ nativeName := name, nativeValue := none, intValue := value }] }

end Headers

/-- The user id, the password and the terminator fill the buffer. -/
def credentials (userid password : CString) : List Byte :=
  let space := 1 + userid.strlen + 1 + password.strlen
  snprintf space (userid.bytes ++ literal ":" ++ password.bytes)

/-- The buffer is as long as the text, so that the last character gives way to the terminator. -/
def basicValue (auth64 : List Byte) : CString :=
  let headerLen := 6 + auth64.length
  .ofBytes (snprintf headerLen (literal "Basic " ++ auth64))

/-- The session with its new request; a body of no bytes is none. -/
def httpClientSessionStageRequest (host method urlQuery : CString)
    (credential : Option (CString × CString)) (rawBody : List Byte) : ℕ × HttpClientSession :=
  let req : HttpRequest := { method, uri := urlQuery }
  let req := requestStringHeader req (.ofBytes (literal "Host")) host
  let req := match credential with
    | some (userid, password) =>
      let auth64 := encodeBase64 (e2a (credentials userid password ++ [0]))
      requestStringHeader req (.ofBytes (literal "Authorization")) (basicValue auth64)
    | none => req
  let req := if 0 < rawBody.length then
      { req with contentLength := BitVec.ofNat 32 rawBody.length, contentBody := some rawBody }
    else req
  (0, { request := some req })

section Session

variable (session : HttpClientSession)

def httpClientSessionSetRequestBody (body : List Byte) (bodyIsNativeText : Bool) :
    ℕ × HttpClientSession :=
  if body.length = 0 then (HTTP_CLIENT_INVALID_ARGUMENT, session)
  else
    match session.request with
    | none => (HTTP_CLIENT_NO_REQUEST, session)
    | some req =>
      let content := if bodyIsNativeText then e2a body else body
      let req := { req with contentLength := BitVec.ofNat 32 body.length, contentBody := some content }
      (0, { session with request := some req })

/-- The terminator is encoded, but it is not translated. -/
def httpClientSessionSetBasicAuthHeader (userid password : CString) : ℕ × HttpClientSession :=
  match session.request with
  | none => (HTTP_CLIENT_NO_REQUEST, session)
  | some req =>
    let auth64 := encodeBase64 (e2a (credentials userid password) ++ [0])
    let req := requestStringHeader req (.ofBytes (literal "Authorization")) (basicValue auth64)
    (0, { session with request := some req })

def httpClientSessionSetBearerTokenAuthHeader (nativeToken : CString) : ℕ × HttpClientSession :=
  match session.request with
  | none => (HTTP_CLIENT_NO_REQUEST, session)
  | some req =>
    let headerLen := 7 + nativeToken.strlen + 1
    let headerVal := snprintf headerLen (literal "Bearer " ++ nativeToken.bytes)
    let req := requestStringHeader req (.ofBytes (literal "Authorization")) (.ofBytes headerVal)
    (0, { session with request := some req })

end Session

def HttpHeader.valueText (header : HttpHeader) : List Byte :=
  match header.nativeValue with
  | some nativeValue => nativeValue.bytes
  | none => (formatD header.intValue.toInt).map Ebcdic.toIbm1047

def HttpHeader.text (header : HttpHeader) : List Byte :=
  header.nativeName.bytes ++ literal ": " ++ header.valueText

/-- As much is translated and written as the text is long, though the line holds less of it. -/
def writeLine (text : List Byte) : Exec (List Byte) :=
  let line := snprintf 1024 text ++ [0]
  let len := text.length
  if len ≤ 1024 then return e2a (line.take len) ++ CRLF else throw .undefinedBehaviour

def writeHeaders : List HttpHeader → Exec (List Byte)
  | [] => return []
  | header :: headerChain => do
    let line ← writeLine header.text
    let more ← writeHeaders headerChain
    return line ++ more

def requestText (request : HttpRequest) : List Byte :=
  request.method.bytes ++ literal " " ++ request.uri.bytes ++ literal " HTTP/1.1"

def writtenHeaders (request : HttpRequest) : List HttpHeader :=
  let request := if request.contentBody.isSome ∧ 0 < request.contentLength.toInt then
      requestIntHeader request (.ofBytes (literal "Content-Length")) request.contentLength
    else request
  request.headerChain

/-- The bytes on the socket. -/
def writeRequestWithBody (request : HttpRequest) : Exec (List Byte) := do
  let line ← writeLine (requestText request)
  let headers ← writeHeaders (writtenHeaders request)
  let body := if 0 < request.contentLength.toInt then request.contentBody.getD [] else []
  return line ++ headers ++ CRLF ++ body.take request.contentLength.toNat

end HttpClient
end ZoweCommon
