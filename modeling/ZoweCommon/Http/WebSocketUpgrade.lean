import ZoweCommon.Http.ClientRequest
import ZoweCommon.Http.RequestHeaders
import ZoweCommon.Http.SessionToken

/-! The response to a request for a web socket. -/
namespace ZoweCommon
namespace Http
namespace WebSocketUpgrade

open CLibrary (formatD)
open Ebcdic (literal toASCIIUTF8)
open HttpClient (e2a)
open Utils

def HTTP_STATUS_SWITCHING_PROTOCOLS : ℤ := 101

def JED_HTTP_KEEP_ALIVE_MAX : ℤ := 1000

def native (s : String) : CString := .ofBytes (literal s)

/-- A header of a response has a string, or else a number. -/
structure ResponseHeader where
  name : CString
  value : Option CString
  intValue : ℤ := 0

/-- `isKeepAlive` and `requestCount` are those of the conversation. -/
structure HttpResponse where
  status : ℤ := -1
  message : CString := native ""
  headers : List ResponseHeader := []
  sessionCookie : Option CString := none
  sessionTimeout : ℤ := 0
  isKeepAlive : Bool
  requestCount : ℤ

def makeHttpResponse (request : HttpRequest) (requestCount : ℤ) : HttpResponse :=
  { isKeepAlive := request.keepAlive, requestCount }

namespace HttpResponse

variable (response : HttpResponse)

def setResponseStatus (status : ℤ) (message : CString) : HttpResponse :=
  { response with status, message, headers := [] }

def addHeader (header : ResponseHeader) : HttpResponse :=
  { response with headers := response.headers ++ [header] }

def addStringHeader (name value : CString) : HttpResponse :=
  response.addHeader { name, value := some value }

def addIntHeader (name : CString) (value : ℤ) : HttpResponse :=
  response.addHeader { name, value := none, intValue := value }

/-- The headers of the session, if it has a cookie. -/
def addSession : HttpResponse :=
  match response.sessionCookie with
  | none => response
  | some sessionCookie =>
    let response := response.addStringHeader (native "Set-Cookie") sessionCookie
    if response.sessionTimeout ≠ 0 then
      response.addIntHeader (native "Session-Expires-Seconds") response.sessionTimeout
    else response

def addConnection : HttpResponse :=
  if response.isKeepAlive then
    if response.requestCount = JED_HTTP_KEEP_ALIVE_MAX then
      response.addStringHeader (native "Connection") (native "close")
    else
      (response.addStringHeader (native "Connection") (native "keep-alive")).addStringHeader
        (native "Keep-Alive") (native "max=1000")
  else response

end HttpResponse

def LINE_SIZE : ℕ := 1024

def formatLine (text : List Byte) : Exec (List Byte) :=
  if text.length + 1 ≤ LINE_SIZE then return text else throw .undefinedBehaviour

def decimal (n : ℤ) : List Byte := (formatD n).map Ebcdic.toIbm1047

def headerText (header : ResponseHeader) : List Byte :=
  header.name.bytes ++ literal ": " ++
    match header.value with
    | some value => value.bytes
    | none => decimal header.intValue

def statusText (response : HttpResponse) : List Byte :=
  literal "HTTP/1.1 " ++ decimal response.status ++ literal " " ++ response.message.bytes

def crlf : List Byte := [0x0D, 0x0A]

def writeHeader (response : HttpResponse) : Exec (List Byte) := do
  let response := response.addSession.addConnection
  let status ← formatLine (statusText response)
  let lines ← response.headers.mapM fun header => formatLine (headerText header)
  return (status :: lines).flatMap (fun line => e2a line ++ crlf) ++ crlf

def ERROR_BUFFER_SIZE : ℕ := 1024

def respondWithError (response : HttpResponse) (code : ℤ) (message : CString) :
    Exec (List Byte) :=
  let len := message.strlen
  if ERROR_BUFFER_SIZE < len then throw .undefinedBehaviour
  else do
    let buffer := toASCIIUTF8 message.bytes
    let response := response.setResponseStatus code message
    let response := response.addStringHeader (native "Content-Type") (native "text/plain")
    let response := response.addStringHeader (native "Server") (native "jdmfws")
    let response := response.addIntHeader (native "Content-Length") len
    let head ← writeHeader response
    return head ++ buffer

/-- What comes from outside: a digest of twenty bytes. -/
structure Digest where
  sha1 : List Byte → List Byte
  length_sha1 : ∀ text, (sha1 text).length = 20

def wsGUID : List Byte := literal "258EAFA5-E914-47DA-95CA-C5AB0DC85B11"

def makeWSAccept (digest : Digest) (key : CString) : CString :=
  .ofBytes (Base64.encodeBase64 (digest.sha1 (e2a (key.bytes ++ wsGUID))))

def COMMA : Byte := 0x6B

def chooseWSProtocol (clientProtocols : CString) : CString :=
  match Utils.indexOf clientProtocols.bytes COMMA 0 with
  | none => clientProtocols
  | some pos => .ofBytes (clientProtocols.bytes.take pos)

def SEC_WEBSOCKET_KEY : CString := native "Sec-WebSocket-Key"

def SEC_WEBSOCKET_VERSION : CString := native "Sec-WebSocket-Version"

def SEC_WEBSOCKET_PROTOCOL : CString := native "Sec-WebSocket-Protocol"

/-- What has been sent, and the protocol of the session if there is one. -/
inductive Upgrade
  | rejected (sent : List Byte)
  | upgraded (sent : List Byte) (negotiatedProtocol : Option CString)

def negotiate (webSocketProtocol : Option HttpHeader) : Option CString :=
  webSocketProtocol.map fun header => chooseWSProtocol (.ofBytes header.nativeValue)

def switchingResponse (digest : Digest) (response : HttpResponse) (webSocketKey : HttpHeader)
    (negotiatedProtocol : Option CString) : HttpResponse :=
  let response := response.setResponseStatus HTTP_STATUS_SWITCHING_PROTOCOLS
    (native "Switching to WebSockets")
  let response := response.addStringHeader (native "Upgrade") (native "websocket")
  let response := response.addStringHeader (native "Connection") (native "Upgrade")
  let response := response.addStringHeader (native "Sec-WebSocket-Accept")
    (makeWSAccept digest (.ofBytes webSocketKey.nativeValue))
  match negotiatedProtocol with
  | none => response
  | some protocol => response.addStringHeader SEC_WEBSOCKET_PROTOCOL protocol

/-- The headers that are only traced are left out, and of `parseURI`, which is called on every
request before it is dispatched, only whether it has a meaning is seen. -/
def upgradeToWebSocket (digest : Digest) (parseURI : HttpRequest → Exec Unit)
    (request : HttpRequest) (response : HttpResponse) : Exec Upgrade := do
  let webSocketKey ← getHeader SEC_WEBSOCKET_KEY request.headerChain
  let webSocketVersion ← getHeader SEC_WEBSOCKET_VERSION request.headerChain
  let webSocketProtocol ← getHeader SEC_WEBSOCKET_PROTOCOL request.headerChain
  if ← headerMatch webSocketVersion (native "13") then
    match webSocketKey with
    | none => throw .undefinedBehaviour
    | some webSocketKey =>
      let negotiatedProtocol := negotiate webSocketProtocol
      parseURI request
      let sent ← writeHeader (switchingResponse digest response webSocketKey negotiatedProtocol)
      return .upgraded sent negotiatedProtocol
  else
    let sent ← respondWithError response HTTP_STATUS_BAD_REQUEST (native "bad web socket version")
    return .rejected sent

def find (name : CString) (request : HttpRequest) : Option HttpHeader :=
  request.headerChain.find? fun header => IsNamed name header

def PROTOCOL_ROOM : ℕ := 999

/-- The version is given; and if it is the right one, the key is given too, and the first protocol
fits the line. -/
structure Upgradable (request : HttpRequest) : Prop where
  version : (find SEC_WEBSOCKET_VERSION request).isSome
  key : ∀ version ∈ find SEC_WEBSOCKET_VERSION request,
    CString.ofBytes version.nativeValue = native "13" → (find SEC_WEBSOCKET_KEY request).isSome
  protocol : ∀ version ∈ find SEC_WEBSOCKET_VERSION request,
    CString.ofBytes version.nativeValue = native "13" →
      ∀ protocol ∈ find SEC_WEBSOCKET_PROTOCOL request,
        (chooseWSProtocol (.ofBytes protocol.nativeValue)).strlen ≤ PROTOCOL_ROOM

/-- The room of a line for the name and the value of a header. -/
def HEADER_ROOM : ℕ := 1021

def STATUS_ROOM : ℕ := 1013

section Lines

variable {response : HttpResponse}

/-- The lines of a response fit. -/
structure Fits (response : HttpResponse) : Prop where
  status : (statusText response).length + 1 ≤ LINE_SIZE
  headers : ∀ header ∈ response.headers, (headerText header).length + 1 ≤ LINE_SIZE

theorem mapM_formatLine (headers : List ResponseHeader) :
    (∃ lines, headers.mapM (fun header => formatLine (headerText header)) = .ok lines) ↔
      ∀ header ∈ headers, (headerText header).length + 1 ≤ LINE_SIZE := by
  induction headers with
  | nil => exact ⟨fun _ => nofun, fun _ => ⟨[], rfl⟩⟩
  | cons header headers ih =>
    rw [List.mapM_cons, List.forall_mem_cons, ← ih]
    by_cases hfits : (headerText header).length + 1 ≤ LINE_SIZE
    · have hline : formatLine (headerText header) = .ok (headerText header) := if_pos hfits
      rw [hline, Exec.ok_bind]
      cases headers.mapM fun header => formatLine (headerText header) with
      | error fault => simp
      | ok lines => simp [hfits]
    · have hline : formatLine (headerText header) = .error .undefinedBehaviour := if_neg hfits
      rw [hline]
      simp [hfits]

theorem writeHeader_iff :
    (∃ sent, writeHeader response = .ok sent) ↔ Fits response.addSession.addConnection := by
  unfold writeHeader
  dsimp only
  generalize response.addSession.addConnection = whole
  have hlines := mapM_formatLine whole.headers
  by_cases hstatus : (statusText whole).length + 1 ≤ LINE_SIZE
  · have hline : formatLine (statusText whole) = .ok (statusText whole) := if_pos hstatus
    rw [hline, Exec.ok_bind]
    constructor
    · rintro ⟨sent, hsent⟩
      obtain ⟨lines, hrun, -⟩ := Exec.bind_eq_ok.mp hsent
      exact ⟨hstatus, hlines.mp ⟨lines, hrun⟩⟩
    · intro hfits
      obtain ⟨lines, hrun⟩ := hlines.mpr hfits.headers
      rw [hrun]
      exact ⟨_, rfl⟩
  · have hline : formatLine (statusText whole) = .error .undefinedBehaviour := if_neg hstatus
    rw [hline]
    constructor
    · rintro ⟨sent, hsent⟩
      cases hsent
    · exact fun hfits => absurd hfits.status hstatus

theorem fits_addHeader {header : ResponseHeader} :
    Fits (response.addHeader header) ↔
      Fits response ∧ (headerText header).length + 1 ≤ LINE_SIZE := by
  constructor
  · intro h
    obtain ⟨hall, hlast⟩ := List.forall_mem_append.mp h.headers
    exact ⟨⟨h.status, hall⟩, hlast header (List.mem_singleton_self header)⟩
  · rintro ⟨h, hlast⟩
    refine ⟨h.status, List.forall_mem_append.mpr ⟨h.headers, ?_⟩⟩
    intro other hother
    rw [List.mem_singleton.mp hother]
    exact hlast

theorem length_headerText (name value : CString) :
    (headerText { name, value := some value }).length = name.strlen + 2 + value.strlen := by
  have htwo : (literal ": ").length = 2 := rfl
  unfold headerText CString.strlen
  rw [List.length_append, List.length_append, htwo]

/-- A name and a value share what a line has left. -/
theorem fits_addStringHeader {name value : CString} :
    Fits (response.addStringHeader name value) ↔
      Fits response ∧ name.strlen + value.strlen ≤ HEADER_ROOM := by
  have hsize : LINE_SIZE = HEADER_ROOM + 3 := rfl
  unfold HttpResponse.addStringHeader
  rw [fits_addHeader, length_headerText, hsize]
  apply and_congr_right
  intro _
  omega

theorem fits_addConnection : Fits response.addConnection ↔ Fits response := by
  have hclose : (native "Connection").strlen + (native "close").strlen ≤ HEADER_ROOM := by
    decide +kernel
  have hkeep : (native "Connection").strlen + (native "keep-alive").strlen ≤ HEADER_ROOM := by
    decide +kernel
  have hmax : (native "Keep-Alive").strlen + (native "max=1000").strlen ≤ HEADER_ROOM := by
    decide +kernel
  unfold HttpResponse.addConnection
  split_ifs
  · rw [fits_addStringHeader, and_iff_left hclose]
  · rw [fits_addStringHeader, fits_addStringHeader, and_iff_left hmax, and_iff_left hkeep]
  · exact Iff.rfl

/-- Without a session only the lines that were added count. -/
theorem writeHeader_noSession (h : response.sessionCookie = none) :
    (∃ sent, writeHeader response = .ok sent) ↔ Fits response := by
  have hsession : response.addSession = response := by
    unfold HttpResponse.addSession
    rw [h]
  rw [writeHeader_iff, hsession, fits_addConnection]

theorem writeHeader_ok (hfits : Fits response) (h : response.sessionCookie = none) :
    ∃ sent, writeHeader response = .ok sent :=
  (writeHeader_noSession h).mpr hfits

/-- The line of a status, for the statuses that are sent here. -/
theorem fits_setResponseStatus {status : ℤ} {message : CString} :
    Fits (response.setResponseStatus status message) ↔
      (decimal status).length + message.strlen ≤ STATUS_ROOM := by
  have hsize : LINE_SIZE = STATUS_ROOM + 11 := rfl
  have hstart : (literal "HTTP/1.1 ").length = 9 := rfl
  have hblank : (literal " ").length = 1 := rfl
  have hlength : (statusText (response.setResponseStatus status message)).length =
      9 + (decimal status).length + 1 + message.strlen := by
    unfold statusText HttpResponse.setResponseStatus CString.strlen
    rw [List.length_append, List.length_append, List.length_append, hstart, hblank]
  constructor
  · intro h
    have hfits := h.status
    omega
  · intro h
    refine ⟨?_, nofun⟩
    omega

end Lines

section Upgrading

variable (digest : Digest) {request : HttpRequest} {response : HttpResponse}

/-- A rejection is always sent. -/
theorem respondWithError_ok (h : response.sessionCookie = none) :
    ∃ sent, respondWithError response HTTP_STATUS_BAD_REQUEST (native "bad web socket version") =
      .ok sent := by
  have hroom : ¬ERROR_BUFFER_SIZE < (native "bad web socket version").strlen := by decide +kernel
  have hstatus : (decimal HTTP_STATUS_BAD_REQUEST).length +
      (native "bad web socket version").strlen ≤ STATUS_ROOM := by decide +kernel
  have htype : (native "Content-Type").strlen + (native "text/plain").strlen ≤ HEADER_ROOM := by
    decide +kernel
  have hserver : (native "Server").strlen + (native "jdmfws").strlen ≤ HEADER_ROOM := by
    decide +kernel
  have hfits : Fits ((((response.setResponseStatus HTTP_STATUS_BAD_REQUEST
      (native "bad web socket version")).addStringHeader (native "Content-Type")
        (native "text/plain")).addStringHeader (native "Server") (native "jdmfws")).addIntHeader
          (native "Content-Length") (native "bad web socket version").strlen) := by
    apply fits_addHeader.mpr
    constructor
    · apply fits_addStringHeader.mpr
      refine ⟨fits_addStringHeader.mpr ⟨fits_setResponseStatus.mpr hstatus, htype⟩, hserver⟩
    · decide +kernel
  unfold respondWithError
  dsimp only
  rw [if_neg hroom]
  obtain ⟨sent, hsent⟩ := writeHeader_ok hfits h
  rw [hsent]
  exact ⟨_, rfl⟩

theorem strlen_makeWSAccept_le (key : CString) : (makeWSAccept digest key).strlen ≤ 28 := by
  unfold makeWSAccept CString.strlen CString.ofBytes
  refine (List.takeWhile_prefix _).length_le.trans ?_
  rw [Base64.length_encodeBase64, digest.length_sha1]

theorem fits_switchingResponse (webSocketKey : HttpHeader) (negotiatedProtocol : Option CString) :
    Fits (switchingResponse digest response webSocketKey negotiatedProtocol) ↔
      ∀ protocol ∈ negotiatedProtocol, protocol.strlen ≤ PROTOCOL_ROOM := by
  have hstatus : (decimal HTTP_STATUS_SWITCHING_PROTOCOLS).length +
      (native "Switching to WebSockets").strlen ≤ STATUS_ROOM := by decide +kernel
  have hupgrade : (native "Upgrade").strlen + (native "websocket").strlen ≤ HEADER_ROOM := by
    decide +kernel
  have hconnection : (native "Connection").strlen + (native "Upgrade").strlen ≤ HEADER_ROOM := by
    decide +kernel
  have haccept : (native "Sec-WebSocket-Accept").strlen +
      (makeWSAccept digest (.ofBytes webSocketKey.nativeValue)).strlen ≤ HEADER_ROOM := by
    have hname : (native "Sec-WebSocket-Accept").strlen = 20 := by decide +kernel
    have hroom : HEADER_ROOM = 1021 := rfl
    have hle := strlen_makeWSAccept_le digest (.ofBytes webSocketKey.nativeValue)
    omega
  have hprotocol (protocol : CString) :
      SEC_WEBSOCKET_PROTOCOL.strlen + protocol.strlen ≤ HEADER_ROOM ↔
        protocol.strlen ≤ PROTOCOL_ROOM := by
    have hname : SEC_WEBSOCKET_PROTOCOL.strlen = 22 := by decide +kernel
    have hroom : HEADER_ROOM = 22 + PROTOCOL_ROOM := rfl
    omega
  have hfirst := (@fits_setResponseStatus response _ _).mpr hstatus
  have hswitching := fits_addStringHeader.mpr ⟨fits_addStringHeader.mpr
    ⟨fits_addStringHeader.mpr ⟨hfirst, hupgrade⟩, hconnection⟩, haccept⟩
  unfold switchingResponse
  dsimp only
  cases negotiatedProtocol with
  | none => exact ⟨fun _ => nofun, fun _ => hswitching⟩
  | some protocol =>
    dsimp only
    rw [fits_addStringHeader, and_iff_right hswitching, hprotocol]
    exact ⟨fun h _ hmem => Option.some.inj hmem ▸ h, fun h => h protocol rfl⟩

theorem sessionCookie_switchingResponse (webSocketKey : HttpHeader)
    (negotiatedProtocol : Option CString) :
    (switchingResponse digest response webSocketKey negotiatedProtocol).sessionCookie =
      response.sessionCookie := by
  cases negotiatedProtocol <;> rfl

theorem upgradable_iff {version : HttpHeader}
    (hversion : find SEC_WEBSOCKET_VERSION request = some version)
    (hthirteen : CString.ofBytes version.nativeValue = native "13") :
    Upgradable request ↔ (find SEC_WEBSOCKET_KEY request).isSome ∧
      ∀ protocol ∈ negotiate (find SEC_WEBSOCKET_PROTOCOL request),
        protocol.strlen ≤ PROTOCOL_ROOM := by
  constructor
  · intro h
    refine ⟨h.key version hversion hthirteen, fun protocol hprotocol => ?_⟩
    obtain ⟨header, hheader, hchosen⟩ := Option.map_eq_some_iff.mp hprotocol
    rw [← hchosen]
    exact h.protocol version hversion hthirteen header hheader
  · intro ⟨hkey, hprotocol⟩
    refine ⟨Option.isSome_iff_exists.mpr ⟨version, hversion⟩, fun _ _ _ => hkey, ?_⟩
    intro _ _ _ header hheader
    exact hprotocol _ (Option.map_eq_some_iff.mpr ⟨header, hheader, rfl⟩)

theorem upgradable_of_ne {version : HttpHeader}
    (hversion : find SEC_WEBSOCKET_VERSION request = some version)
    (hother : CString.ofBytes version.nativeValue ≠ native "13") : Upgradable request := by
  have hne {header : HttpHeader} (hheader : header ∈ find SEC_WEBSOCKET_VERSION request) :
      CString.ofBytes header.nativeValue ≠ native "13" := by
    rw [hversion] at hheader
    rw [← Option.some.inj hheader]
    exact hother
  exact ⟨Option.isSome_iff_exists.mpr ⟨version, hversion⟩,
    fun _ hheader heq => absurd heq (hne hheader), fun _ hheader heq => absurd heq (hne hheader)⟩

end Upgrading

/-- Every request that was parsed is answered, for whatever headers it has. -/
theorem upgrade_answered_iff (digest : Digest) {parseURI : HttpRequest → Exec Unit}
    {request : HttpRequest} (hparsed : parseURI request = .ok ()) (requestCount : ℤ) :
    (∃ outcome, upgradeToWebSocket digest parseURI request (makeHttpResponse request requestCount) =
      .ok outcome) ↔ Upgradable request := by
  have hsession : (makeHttpResponse request requestCount).sessionCookie = none := rfl
  generalize makeHttpResponse request requestCount = response at hsession
  have hfind (name : CString) : getHeader name request.headerChain = .ok (find name request) :=
    getHeader_eq name request.headerChain
  unfold upgradeToWebSocket
  rw [hfind, hfind, hfind]
  simp only [Exec.ok_bind, hparsed]
  cases hversion : find SEC_WEBSOCKET_VERSION request with
  | none =>
    -- The comparison reads the header that is missing.
    constructor
    · intro ⟨outcome, hrun⟩
      cases hrun
    · intro h
      have hsome := h.version
      rw [hversion] at hsome
      cases hsome
  | some version =>
    by_cases hthirteen : CString.ofBytes version.nativeValue = native "13"
    · have hmatch : headerMatch (some version) (native "13") = .ok true :=
        congrArg Except.ok (decide_eq_true hthirteen)
      rw [hmatch, Exec.ok_bind, if_pos rfl, upgradable_iff hversion hthirteen]
      cases hkey : find SEC_WEBSOCKET_KEY request with
      | none =>
        constructor
        · intro ⟨outcome, hrun⟩
          cases hrun
        · intro ⟨hsome, _⟩
          cases hsome
      | some webSocketKey =>
        have hcookie := (@sessionCookie_switchingResponse digest response webSocketKey
          (negotiate (find SEC_WEBSOCKET_PROTOCOL request))).trans hsession
        rw [Option.isSome_some, eq_self, true_and,
          ← @fits_switchingResponse digest response webSocketKey, ← writeHeader_noSession hcookie]
        constructor
        · intro ⟨outcome, hrun⟩
          obtain ⟨sent, hsent, -⟩ := Exec.bind_eq_ok.mp hrun
          exact ⟨sent, hsent⟩
        · intro ⟨sent, hsent⟩
          refine ⟨.upgraded sent (negotiate (find SEC_WEBSOCKET_PROTOCOL request)), ?_⟩
          dsimp only
          rw [hsent]
          rfl
    · have hmatch : headerMatch (some version) (native "13") = .ok false :=
        congrArg Except.ok (decide_eq_false hthirteen)
      obtain ⟨sent, hsent⟩ := respondWithError_ok hsession
      rw [hmatch, Exec.ok_bind, if_neg Bool.false_ne_true, hsent]
      exact iff_of_true ⟨_, rfl⟩ (upgradable_of_ne hversion hthirteen)

/-- The digest of the key below and what is put behind it. -/
def sampleDigest : Digest where
  sha1 _ := [0xB3, 0x7A, 0x4F, 0x2C, 0xC0, 0x62, 0x4F, 0x16, 0x90, 0xF6, 0x46, 0x06, 0xCF, 0x38, 0x59,
    0x45, 0xB2, 0xBE, 0xC4, 0xEA]
  length_sha1 _ := rfl

def sampleHeader (nativeName nativeValue : String) : HttpHeader where
  name := CString.ascii nativeName
  nativeName := literal nativeName
  value := CString.ascii nativeValue
  nativeValue := literal nativeValue

def sampleRequest : HttpRequest where
  method := CString.ascii "GET"
  uri := CString.ascii "/"
  headerChain := [sampleHeader "Upgrade" "websocket",
    sampleHeader "Sec-WebSocket-Key" "dGhlIHNhbXBsZSBub25jZQ==",
    sampleHeader "Sec-WebSocket-Version" "13"]
  isWebSocket := true
  keepAlive := false

theorem upgrade_answered_sample :
    ∃ outcome, upgradeToWebSocket sampleDigest (fun _ => .ok ()) sampleRequest
      (makeHttpResponse sampleRequest 1) = .ok outcome := by
  apply (upgrade_answered_iff sampleDigest rfl 1).mpr
  have hprotocol : find SEC_WEBSOCKET_PROTOCOL sampleRequest = none := by decide +kernel
  refine ⟨by decide +kernel, fun _ _ _ => by decide +kernel, fun _ _ _ protocol h => ?_⟩
  rw [hprotocol] at h
  cases h

/-- A request for a web socket that has no other header. -/
def upgradeOnly : List Byte := CString.ascii "GET / HTTP/1.1\r\nUpgrade: websocket\r\n\r\n"

theorem not_upgrade_answered :
    ∃ parser request, processHttpFragment makeHttpRequestParser upgradeOnly = .ok (true, parser) ∧
      parser.requestQHead = [request] ∧ request.isWebSocket = true ∧
      upgradeToWebSocket sampleDigest (fun _ => .ok ()) request (makeHttpResponse request 1) =
        .error .undefinedBehaviour := by
  have hparse : ∃ parser request,
      processHttpFragment makeHttpRequestParser upgradeOnly = .ok (true, parser) ∧
        parser.requestQHead = [request] ∧ request.isWebSocket = true ∧
        request.headerChain = [sampleHeader "Upgrade" "websocket"] := by
    have hread : (processHttpFragment makeHttpRequestParser upgradeOnly).map
        (fun result => (result.1, result.2.requestQHead.map fun request =>
          (request.isWebSocket, request.headerChain))) =
        .ok (true, [(true, [sampleHeader "Upgrade" "websocket"])]) := by decide +kernel
    generalize processHttpFragment makeHttpRequestParser upgradeOnly = run at hread
    obtain _ | ⟨goesOn, parser⟩ := run
    · exact nomatch hread
    obtain ⟨hgoesOn, hqueue⟩ := Prod.mk.inj (Except.ok.inj hread)
    obtain ⟨request, hrequest, hfields⟩ := List.map_eq_singleton_iff.mp hqueue
    obtain ⟨hupgrade, hheaders⟩ := Prod.mk.inj hfields
    have hrun : goesOn = true := hgoesOn
    rw [hrun]
    exact ⟨parser, request, rfl, hrequest, hupgrade, hheaders⟩
  obtain ⟨parser, request, hrun, hqueue, hupgrade, hheaders⟩ := hparse
  refine ⟨parser, request, hrun, hqueue, hupgrade, ?_⟩
  have hnone (name : CString) (h : ¬IsNamed name (sampleHeader "Upgrade" "websocket")) :
      getHeader name request.headerChain = .ok none := by
    rw [getHeader_eq, hheaders, List.find?_cons, decide_eq_false h]
    rfl
  have hkey := hnone SEC_WEBSOCKET_KEY (by decide +kernel)
  have hversion := hnone SEC_WEBSOCKET_VERSION (by decide +kernel)
  have hprotocol := hnone SEC_WEBSOCKET_PROTOCOL (by decide +kernel)
  unfold upgradeToWebSocket
  rw [hkey, hversion, hprotocol]
  rfl

end WebSocketUpgrade
end Http
end ZoweCommon
