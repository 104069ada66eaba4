import ZoweCommon.Http.ClientRequest
import ZoweCommon.Http.RequestRoundTrip

/-! The bytes that the client writes of a request, as the server reads them. -/
namespace ZoweCommon
namespace HttpClient

open CLibrary (snprintf formatD toInt_length)
open Ebcdic (literal)
open Http

/-- A request that was staged, with the headers and the body that were set after it. -/
inductive Staged : HttpRequest → Prop
  | stage {host method urlQuery : CString} {credential : Option (CString × CString)}
      {rawBody : List Byte} {req : HttpRequest} (hlength : rawBody.length < 2 ^ 31)
      (hreq : (httpClientSessionStageRequest host method urlQuery credential rawBody).2.request =
        some req) : Staged req
  | stringHeader {req : HttpRequest} (name value : CString) (hreq : Staged req) :
      Staged (requestStringHeader req name value)
  | intHeader {req : HttpRequest} (name : CString) (value : BitVec 32) (hreq : Staged req) :
      Staged (requestIntHeader req name value)
  | basicAuth {req req' : HttpRequest} {userid password : CString} (hreq : Staged req)
      (hset : (httpClientSessionSetBasicAuthHeader ⟨some req⟩ userid password).2.request =
        some req') : Staged req'
  | bearerToken {req req' : HttpRequest} {nativeToken : CString} (hreq : Staged req)
      (hset : (httpClientSessionSetBearerTokenAuthHeader ⟨some req⟩ nativeToken).2.request =
        some req') : Staged req'
  | body {req req' : HttpRequest} {body : List Byte} {bodyIsNativeText : Bool} (hreq : Staged req)
      (hlength : body.length < 2 ^ 31)
      (hset : (httpClientSessionSetRequestBody ⟨some req⟩ body bodyIsNativeText).2.request =
        some req') : Staged req'

/-- The body of a request is none, or bytes of the length that is noted. -/
def BodySet (req : HttpRequest) : Prop :=
  match req.contentBody with
  | none => req.contentLength = 0
  | some body => 0 < body.length ∧ body.length < 2 ^ 31 ∧
      req.contentLength = BitVec.ofNat 32 body.length

namespace HttpHeader

def line (header : HttpHeader) : HeaderLine where
  name := e2a header.nativeName.bytes
  gap := [32]
  value := e2a header.valueText

end HttpHeader

/-- A request that the server is to take: the headers for the body are left to the client. -/
structure Sendable (req : HttpRequest) : Prop where
  method : e2a req.method.bytes ∈ methods
  uri_ne : req.uri.bytes ≠ []
  uri : ∀ c ∈ e2a req.uri.bytes, isAsciiPrintable c
  uri_fits : req.uri.bytes.length ≤ MAX_HTTP_URI
  headers : ∀ header ∈ req.headerChain, header.line.Sent
  unframed : ∀ header ∈ req.headerChain, ∀ s ∈ ["Transfer-Encoding", "Content-Length"],
    ¬IsText header.line.name s

/-- Each line with its end. -/
def formatted (req : HttpRequest) : List Byte :=
  e2a (requestText req) ++ CRLF ++
    (writtenHeaders req).flatMap (fun header => e2a header.text ++ CRLF) ++ CRLF ++
    req.contentBody.getD []

/-- The request that the server has queued is the one that was staged. -/
structure Received (req : HttpRequest) (request : Http.HttpRequest) : Prop where
  method : request.method = e2a req.method.bytes
  uri : request.uri = e2a req.uri.bytes
  headers : request.headerChain.map (fun header => (header.name, header.value)) =
    req.headerChain.map (fun header => (e2a header.nativeName.bytes, e2a header.valueText)) ++
      match req.contentBody with
      | none => []
      | some body => [(CString.ascii "Content-Length", formatD body.length)]
  body : request.contentBody.getD [] = req.contentBody.getD []

/-- What is written are the lines and the body, and in any fragments it is one request. -/
def AgreesOnWire (req : HttpRequest) : Prop :=
  ∃ bytes, writeRequestWithBody req = .ok bytes ∧ bytes = formatted req ∧
    ∀ fragments : List (List Byte), fragments.flatten = bytes →
      ∃ parser request, processFragments makeHttpRequestParser fragments = .ok (true, parser) ∧
        Dequeues parser [request] ∧ Received req request

section Lines

/-- The characters of a line are those of ASCII, and the terminator is only itself. -/
theorem translate_native {c : Byte} (h : c = 32 ∨ isAsciiPrintable c) :
    Ebcdic.translate ebcdic_to_ascii (Ebcdic.toIbm1047 c) = c := by
  have hall : ∀ c : Byte, c = 32 ∨ isAsciiPrintable c →
      Ebcdic.translate ebcdic_to_ascii (Ebcdic.toIbm1047 c) = c := by
    simp only [Ebcdic.translate_packed, Ebcdic.toIbm1047_packed]
    decide +kernel
  exact hall c h

theorem translate_ne_zero {c : Byte} (h : c ≠ 0) : Ebcdic.translate ebcdic_to_ascii c ≠ 0 := by
  have hall : ∀ c : Byte, c ≠ 0 → Ebcdic.translate ebcdic_to_ascii c ≠ 0 := by
    simp only [Ebcdic.translate_packed]
    decide +kernel
  exact hall c h

theorem e2a_native {text : List Byte} (h : ∀ c ∈ text, c = 32 ∨ isAsciiPrintable c) :
    e2a (text.map Ebcdic.toIbm1047) = text := by
  have hid : text.map (Ebcdic.translate ebcdic_to_ascii ∘ Ebcdic.toIbm1047) = text.map id :=
    List.map_congr_left fun c hc => translate_native (h c hc)
  rw [e2a, List.map_map, hid, List.map_id]

theorem e2a_literal {s : String} (h : ∀ c ∈ CString.ascii s, c = 32 ∨ isAsciiPrintable c) :
    e2a (literal s) = CString.ascii s := e2a_native h

theorem e2a_append (a b : List Byte) : e2a (a ++ b) = e2a a ++ e2a b := List.map_append

@[simp] theorem length_e2a (text : List Byte) : (e2a text).length = text.length :=
  List.length_map _

theorem writeLine_fits {text : List Byte} (h : text.length < 1024) :
    writeLine text = .ok (e2a text ++ CRLF) := by
  have hline : (snprintf 1024 text ++ [0]).take text.length = text := by
    unfold snprintf
    rw [List.take_of_length_le (by omega : text.length ≤ 1024 - 1), List.take_left]
  unfold writeLine
  dsimp only
  rw [if_pos h.le, hline]
  rfl

/-- One that does not has its terminator written, or what comes after the array. -/
theorem writeLine_long {text line : List Byte} (hnoNul : NoNul text) (h : 1024 ≤ text.length)
    (hwrite : writeLine text = .ok line) :
    line.length = (e2a text ++ CRLF).length ∧ line ≠ e2a text ++ CRLF := by
  unfold writeLine at hwrite
  dsimp only at hwrite
  split_ifs at hwrite with hle
  · have hlength : text.length = 1024 := by omega
    have hline : (snprintf 1024 text ++ [0]).take text.length = text.take 1023 ++ [0] := by
      unfold snprintf
      apply List.take_of_length_le
      rw [List.length_append, List.length_take, List.length_singleton]
      omega
    rw [hline] at hwrite
    rw [← Except.ok.inj hwrite]
    constructor
    · simp only [List.length_append, length_e2a, List.length_take, List.length_singleton]
      omega
    · intro hsame
      have htext := List.append_cancel_right hsame
      rw [e2a_append] at htext
      have hzero : (0 : Byte) ∈ e2a text := by
        rw [← htext]
        exact List.mem_append_right _ (by decide)
      obtain ⟨c, hc, htranslated⟩ := List.mem_map.mp hzero
      exact translate_ne_zero (hnoNul c hc) htranslated

theorem noNul_valueText (header : HttpHeader) : NoNul header.valueText := by
  unfold HttpHeader.valueText
  cases header.nativeValue with
  | some nativeValue => exact nativeValue.noNul
  | none =>
    intro b hb
    obtain ⟨c, hc, rfl⟩ := List.mem_map.mp hb
    exact Ebcdic.toIbm1047_ne_zero (CLibrary.noNul_formatD _ c hc)

theorem noNul_text (header : HttpHeader) : NoNul header.text := by
  have hcolon : NoNul (literal ": ") := by decide
  exact (header.nativeName.noNul.append hcolon).append (noNul_valueText header)

theorem noNul_requestText (req : HttpRequest) : NoNul (requestText req) := by
  have hblank : NoNul (literal " ") := by decide
  have hversion : NoNul (literal " HTTP/1.1") := by decide
  exact ((req.method.noNul.append hblank).append req.uri.noNul).append hversion

/-- What is written of the headers is as long as their lines; it is them if they all fit. -/
theorem writeHeaders_fit {headers : List HttpHeader} (h : ∀ header ∈ headers, header.text.length < 1024) :
    writeHeaders headers = .ok (headers.flatMap fun header => e2a header.text ++ CRLF) := by
  induction headers with
  | nil => rfl
  | cons header headers ih =>
    obtain ⟨hfits, hmore⟩ := List.forall_mem_cons.mp h
    rw [writeHeaders, writeLine_fits hfits, ih hmore]
    rfl

theorem writeLine_length {text line : List Byte} (hwrite : writeLine text = .ok line)
    (hnoNul : NoNul text) : line.length = (e2a text ++ CRLF).length := by
  rcases Nat.lt_or_ge text.length 1024 with hfits | hlong
  · rw [writeLine_fits hfits] at hwrite
    rw [← Except.ok.inj hwrite]
  · exact (writeLine_long hnoNul hlong hwrite).1

/-- Lines that are written as they are fit in the array. -/
theorem writeHeaders_inv {headers : List HttpHeader} {lines : List Byte}
    (hwrite : writeHeaders headers = .ok lines) :
    lines.length = (headers.flatMap fun header => e2a header.text ++ CRLF).length ∧
      (lines = headers.flatMap (fun header => e2a header.text ++ CRLF) →
        ∀ header ∈ headers, header.text.length < 1024) := by
  induction headers generalizing lines with
  | nil =>
    rw [← Except.ok.inj hwrite]
    exact ⟨rfl, fun _ => List.forall_mem_nil _⟩
  | cons header headers ih =>
    rw [writeHeaders] at hwrite
    obtain ⟨line, hline, hwrite⟩ := Exec.bind_eq_ok.mp hwrite
    obtain ⟨more, hmore, hwrite⟩ := Exec.bind_eq_ok.mp hwrite
    obtain ⟨hlength, hsame⟩ := ih hmore
    have hfirst := writeLine_length hline (noNul_text header)
    rw [← Except.ok.inj hwrite]
    constructor
    · rw [List.length_append, List.flatMap_cons, List.length_append, hfirst, hlength]
    · intro heq
      rw [List.flatMap_cons] at heq
      obtain ⟨hhead, htail⟩ := List.append_inj heq hfirst
      have hfits : header.text.length < 1024 := by
        by_contra hlong
        exact (writeLine_long (noNul_text header) (Nat.le_of_not_lt hlong) hline).2 hhead
      exact List.forall_mem_cons.mpr ⟨hfits, hsame htail⟩

end Lines

section Body

variable {req : HttpRequest}

theorem Staged.bodySet (h : Staged req) : BodySet req := by
  induction h with
  | @stage host method urlQuery credential rawBody req hlength hreq =>
    unfold httpClientSessionStageRequest at hreq
    dsimp only at hreq
    rw [← Option.some_inj.mp hreq]
    unfold BodySet
    by_cases hbody : 0 < rawBody.length
    · rw [if_pos hbody]
      exact ⟨hbody, hlength, rfl⟩
    · rw [if_neg hbody]
      cases credential <;> rfl
  | stringHeader name value hreq ih => exact ih
  | intHeader name value hreq ih => exact ih
  | basicAuth hreq hset ih =>
    rw [← Option.some_inj.mp hset]
    exact ih
  | bearerToken hreq hset ih =>
    rw [← Option.some_inj.mp hset]
    exact ih
  | @body req req' body bodyIsNativeText hreq hlength hset ih =>
    unfold httpClientSessionSetRequestBody at hset
    by_cases hempty : body.length = 0
    · rw [if_pos hempty] at hset
      rw [← Option.some_inj.mp hset]
      exact ih
    · rw [if_neg hempty] at hset
      rw [← Option.some_inj.mp hset]
      unfold BodySet
      cases bodyIsNativeText with
      | false => exact ⟨Nat.pos_of_ne_zero hempty, hlength, rfl⟩
      | true =>
        show 0 < (e2a body).length ∧ (e2a body).length < 2 ^ 31 ∧ _ = BitVec.ofNat 32 (e2a body).length
        rw [length_e2a]
        exact ⟨Nat.pos_of_ne_zero hempty, hlength, rfl⟩

def lengthHeader (body : List Byte) : HttpHeader where
  nativeName := .ofBytes (literal "Content-Length")
  nativeValue := none
  intValue := BitVec.ofNat 32 body.length

theorem writtenHeaders_eq (h : BodySet req) : writtenHeaders req =
    req.headerChain ++ (req.contentBody.map lengthHeader).toList := by
  unfold BodySet at h
  unfold writtenHeaders
  cases hbody : req.contentBody with
  | none =>
    simp only [Option.isSome_none, Bool.false_eq_true, false_and, if_false]
    exact (List.append_nil _).symm
  | some body =>
    rw [hbody] at h
    obtain ⟨hpos, hfits, hlength⟩ := h
    have hset : 0 < req.contentLength.toInt := by
      rw [hlength, toInt_length hfits]
      omega
    simp only [Option.isSome_some, hset, and_self, if_true]
    rw [hlength]
    rfl

theorem forall_writtenHeaders {P : HttpHeader → Prop} (h : BodySet req)
    (hheaders : ∀ header ∈ req.headerChain, P header)
    (hlength : ∀ body : List Byte, body.length < 2 ^ 31 → P (lengthHeader body)) :
    ∀ header ∈ writtenHeaders req, P header := by
  rw [writtenHeaders_eq h]
  intro header hheader
  rcases List.mem_append.mp hheader with hheader | hheader
  · exact hheaders header hheader
  · unfold BodySet at h
    cases hcontent : req.contentBody with
    | none =>
      rw [hcontent] at hheader
      exact absurd hheader List.not_mem_nil
    | some body =>
      rw [hcontent] at hheader h
      rw [List.mem_singleton.mp hheader]
      exact hlength body h.2.1

theorem mem_writtenHeaders (h : BodySet req) {header : HttpHeader}
    (hheader : header ∈ req.headerChain) : header ∈ writtenHeaders req := by
  rw [writtenHeaders_eq h]
  exact List.mem_append_left _ hheader

theorem writtenBody_eq (h : BodySet req) :
    (if 0 < req.contentLength.toInt then req.contentBody.getD [] else []).take
      req.contentLength.toNat = req.contentBody.getD [] := by
  unfold BodySet at h
  cases hbody : req.contentBody with
  | none => simp
  | some body =>
    rw [hbody] at h
    obtain ⟨hpos, hfits, hlength⟩ := h
    have hset : 0 < req.contentLength.toInt := by
      rw [hlength, toInt_length hfits]
      omega
    rw [if_pos hset, Option.getD_some, hlength, BitVec.toNat_ofNat, Nat.mod_eq_of_lt (by omega)]
    exact List.take_length

/-- A numeral is received as it was written. -/
theorem digit_native {n : ℕ} {c : Byte} (h : c ∈ formatD n) : isDecimalDigit c ∧ isAsciiPrintable c := by
  have hneg : ¬(n : ℤ) < 0 := by omega
  have hall : ∀ d < 10, isDecimalDigit (CLibrary.digitChar d) ∧
      isAsciiPrintable (CLibrary.digitChar d) := by decide
  rw [CLibrary.formatD_of_nonneg hneg] at h
  obtain ⟨d, hd, rfl⟩ := List.mem_map.mp h
  exact hall d (Decimal.digits_lt hd)

theorem line_lengthHeader {body : List Byte} (hfits : body.length < 2 ^ 31) :
    (lengthHeader body).line =
      { name := CString.ascii "Content-Length", gap := [32], value := formatD body.length } := by
  have hname : e2a (lengthHeader body).nativeName.bytes = CString.ascii "Content-Length" := by
    show e2a (CString.ofBytes (literal "Content-Length")).bytes = _
    rw [CString.ofBytes_of_noNul (by decide)]
    exact e2a_literal (by decide)
  have hvalue : e2a (lengthHeader body).valueText = formatD body.length := by
    unfold HttpHeader.valueText lengthHeader
    dsimp only
    rw [toInt_length hfits]
    exact e2a_native fun c hc => .inr (digit_native hc).2
  unfold HttpHeader.line
  rw [hname, hvalue]

theorem length_formatD_length {n : ℕ} (h : n < 2 ^ 31) : (formatD n).length ≤ 21 := by
  apply CLibrary.length_formatD_le
  rw [Int.natAbs_natCast]
  omega

end Body

section Wire

variable {req : HttpRequest}

/-- A request in the grammar of the server. -/
def sentRequest (req : HttpRequest) : Request where
  method := e2a req.method.bytes
  gap1 := [32]
  uri := e2a req.uri.bytes
  gap2 := [32]
  version := CString.ascii "HTTP/1.1"
  lines := (writtenHeaders req).map HttpHeader.line
  body := .plain (req.contentBody.getD [])

theorem e2a_text (header : HttpHeader) : e2a header.text ++ CRLF = header.line.wire := by
  have hcolon : e2a (literal ": ") = [HttpRequestParser.ASCII_COLON, 32] := e2a_literal (by decide)
  unfold HttpHeader.text HeaderLine.wire HttpHeader.line
  rw [e2a_append, e2a_append, hcolon]
  simp

theorem body_fits (hbody : BodySet req) : (sentRequest req).body.bytes.length < 2 ^ 31 := by
  show (req.contentBody.getD []).length < 2 ^ 31
  unfold BodySet at hbody
  cases hcontent : req.contentBody with
  | none => decide
  | some body =>
    rw [hcontent] at hbody
    exact hbody.2.1

theorem text_lengthHeader {body : List Byte} (hfits : body.length < 2 ^ 31) :
    (lengthHeader body).text.length < 1024 := by
  have hline := congrArg List.length (e2a_text (lengthHeader body))
  have hdigits := length_formatD_length hfits
  rw [line_lengthHeader hfits, List.length_append, length_e2a] at hline
  have hname : (CString.ascii "Content-Length").length = 14 := by decide
  unfold HeaderLine.wire at hline
  simp only [List.length_append, List.length_cons, List.length_nil] at hline
  omega

theorem writtenHeaders_fit (hbody : BodySet req) :
    (∀ header ∈ writtenHeaders req, header.text.length < 1024) ↔
      ∀ header ∈ req.headerChain, header.text.length < 1024 := by
  constructor
  · exact fun h header hheader => h header (mem_writtenHeaders hbody hheader)
  · exact fun h => forall_writtenHeaders hbody h fun _ => text_lengthHeader

/-- What is written is what was formatted if every line fits. -/
theorem writeRequestWithBody_iff (hbody : BodySet req) :
    writeRequestWithBody req = .ok (formatted req) ↔ (requestText req).length < 1024 ∧
      ∀ header ∈ req.headerChain, header.text.length < 1024 := by
  rw [← writtenHeaders_fit hbody]
  constructor
  · intro hwrite
    unfold writeRequestWithBody at hwrite
    obtain ⟨line, hline, hwrite⟩ := Exec.bind_eq_ok.mp hwrite
    obtain ⟨lines, hlines, hwrite⟩ := Exec.bind_eq_ok.mp hwrite
    have hsame := Except.ok.inj hwrite
    rw [writtenBody_eq hbody, formatted] at hsame
    have hfirst := writeLine_length hline (noNul_requestText req)
    obtain ⟨hrest, hfit⟩ := writeHeaders_inv hlines
    have hfront := List.append_cancel_right (List.append_cancel_right hsame)
    obtain ⟨hhead, htail⟩ := List.append_inj hfront hfirst
    constructor
    · by_contra hlong
      exact (writeLine_long (noNul_requestText req) (Nat.le_of_not_lt hlong) hline).2 hhead
    · exact hfit htail
  · intro hfits
    unfold writeRequestWithBody
    rw [writeLine_fits hfits.1, writeHeaders_fit hfits.2, Exec.ok_bind, Exec.ok_bind]
    dsimp only
    rw [writtenBody_eq hbody]
    rfl

/-- The server cannot go on after a value that it cannot read. -/
theorem process_unreadable {r : Request} (hr : r.Sent) (hfits : r.body.bytes.length < 2 ^ 31)
    (hunreadable : ¬∀ l ∈ r.lines, l.Readable) :
    processHttpFragment makeHttpRequestParser r.wire = .error .undefinedBehaviour := by
  have haccepted := hr.accepted hfits
  have hline := process_requestLine ready_make haccepted (hr.fits hfits)
    (headerWire r.lines ++ r.body.wire)
  have hheaders := @process_lines (afterLine makeHttpRequestParser r) r.lines haccepted.lines rfl
    rfl (CRLF ++ r.body.wire)
  rw [if_neg hunreadable] at hheaders
  unfold Request.wire
  rw [hline, headerWire, List.append_assoc, hheaders]

end Wire

def get (uri : List Byte) : HttpRequest where
  method := .ofBytes (literal "GET")
  uri := .ofBytes uri
  headerChain := [{
    nativeName := .ofBytes (literal "Host")
    nativeValue := some (.ofBytes (literal "H")) }]

theorem staged_get (uri : List Byte) : Staged (get uri) :=
  @Staged.stage (.ofBytes (literal "H")) (.ofBytes (literal "GET")) (.ofBytes uri) none [] _
    (by decide) rfl

theorem sendable_get {uri : List Byte} (hnoNul : NoNul uri) (hne : uri ≠ [])
    (huri : ∀ c ∈ e2a uri, isAsciiPrintable c) (hfits : uri.length ≤ MAX_HTTP_URI) :
    Sendable (get uri) where
  method := (by decide +kernel : e2a (CString.ofBytes (literal "GET")).bytes ∈ methods)
  uri_ne := by
    show (CString.ofBytes uri).bytes ≠ []
    rw [CString.ofBytes_of_noNul hnoNul]
    exact hne
  uri := by
    show ∀ c ∈ e2a (CString.ofBytes uri).bytes, isAsciiPrintable c
    rw [CString.ofBytes_of_noNul hnoNul]
    exact huri
  uri_fits := by
    show (CString.ofBytes uri).bytes.length ≤ MAX_HTTP_URI
    rw [CString.ofBytes_of_noNul hnoNul]
    exact hfits
  headers := by
    intro header hheader
    rw [List.mem_singleton.mp hheader]
    constructor
    all_goals decide +kernel
  unframed := by
    intro header hheader
    rw [List.mem_singleton.mp hheader]
    decide +kernel

/-- The line of a request with a URI of 1011 characters does not fit. -/
theorem not_agrees_on_wire : ¬∀ req, Staged req → Sendable req → AgreesOnWire req := by
  intro h
  obtain ⟨uri, huri⟩ : ∃ uri : List Byte, uri = List.replicate 1011 0x61 := ⟨_, rfl⟩
  have hslash : ∀ c ∈ uri, c = 0x61 := by
    rw [huri]
    exact fun c hc => List.eq_of_mem_replicate hc
  have hlength : uri.length = 1011 := by
    rw [huri]
    exact List.length_replicate
  have hnoNul : NoNul uri := by
    intro c hc
    rw [hslash c hc]
    decide
  have hprintable : ∀ c ∈ e2a uri, isAsciiPrintable c := by
    intro b hb
    obtain ⟨c, hc, rfl⟩ := List.mem_map.mp hb
    rw [hslash c hc]
    decide +kernel
  have hne : uri ≠ [] := List.ne_nil_of_length_pos (by omega)
  have hsendable := sendable_get hnoNul hne hprintable (by rw [hlength]; decide)
  obtain ⟨bytes, hwrite, hbytes, -⟩ := h (get uri) (staged_get uri) hsendable
  rw [hbytes, writeRequestWithBody_iff (staged_get uri).bodySet] at hwrite
  have htext : (requestText (get uri)).length = 1024 := by
    show ((CString.ofBytes (literal "GET")).bytes ++ literal " " ++ (CString.ofBytes uri).bytes ++
      literal " HTTP/1.1").length = 1024
    rw [CString.ofBytes_of_noNul hnoNul, List.length_append, List.length_append, List.length_append,
      hlength]
    decide
  omega

end HttpClient
end ZoweCommon
