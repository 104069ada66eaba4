import ZoweCommon.Http.ResponseParser

/-! Where the client stores what a server sends. -/
namespace ZoweCommon
namespace Http
namespace ClientResponse

open HttpRequestParser (ASCII_COLON)

/-- The states in which the response of a body in chunks grows. -/
def ReadsChunks : ResponseState → Bool
  | .READING_CHUNK_HEADER | .CHUNK_HEADER_CR_SEEN | .READING_CHUNK_DATA | .CHUNK_DATA_CR_SEEN => true
  | _ => false

/-- What every parser keeps to. -/
structure Inv (parser : HttpResponseParser) : Prop where
  version : parser.version.length ≤ MAX_HTTP_VERSION
  headerValue : parser.headerValue.length ≤ MAX_HTTP_FIELD_VALUE
  fixedBody : parser.state = .READING_FIXED_BODY →
    parser.contentSize = parser.specifiedContentLength ∧
      parser.remainingContentLength ≤ parser.specifiedContentLength
  chunks : ReadsChunks parser.state → ∃ resp, parser.resp = some resp ∧ 0 ≤ resp.contentLength

/-- There is room for the byte: for one of the status or of its reason, for one of a name, and none
follows a body. -/
def Room (parser : HttpResponseParser) (c : Byte) : Prop :=
  match parser.state with
  | .RESP_STATUS_STATUS =>
    ¬isCR c ∧ ¬isLF c ∧ ¬isWhitespace c → parser.statusReason.length < MAX_HTTP_VERSION + 8
  | .RESP_STATUS_GAP2 => ¬isCR c ∧ ¬isLF c → parser.statusReason.length < MAX_HTTP_VERSION + 8
  | .RESP_STATUS_REASON =>
    isAsciiPrintable c ∨ isWhitespace c → parser.statusReason.length < MAX_HTTP_VERSION + 8
  | .HEADER_FIELD_NAME =>
    isAsciiPrintable c ∧ c ≠ ASCII_COLON → parser.headerName.length < MAX_HTTP_FIELD_NAME + 8
  | .READING_FIXED_BODY => 0 < parser.remainingContentLength
  | _ => True

def FragmentWithin (unspecified : Unspecified) (session : HttpClientSession) : List Byte → Prop
  | [] => True
  | c :: data => Room session.responseParser c ∧
    ∀ session', session.processByte unspecified c data.length = .ok (true, session') →
      FragmentWithin unspecified session' data

/-- There is room for every byte of the fragments that is read. -/
def Within (unspecified : Unspecified) (session : HttpClientSession) : List (List Byte) → Prop
  | [] => True
  | fragment :: fragments => FragmentWithin unspecified session fragment ∧
    ∀ status session',
      processHttpResponseFragment unspecified session fragment = .ok (status, session') →
        Within unspecified session' fragments

def Kept (step : Exec (Bool × HttpClientSession)) : Prop :=
  ∃ goesOn session, step = .ok (goesOn, session) ∧ Inv session.responseParser

/-- A step that has a meaning if there is room. -/
def KeptIf (room : Prop) (step : Exec (Bool × HttpClientSession)) : Prop :=
  (room → Kept step) ∧ (¬room → step = .error .undefinedBehaviour)

section Steps

variable {unspecified : Unspecified} {session : HttpClientSession} {parser : HttpResponseParser}
  {c : Byte} {left : ℕ}

theorem Kept.keptIf {step : Exec (Bool × HttpClientSession)} (h : Kept step) : KeptIf True step :=
  ⟨fun _ => h, fun hno => absurd trivial hno⟩

theorem kept_fail (h : Inv session.responseParser) : Kept session.fail := ⟨false, session, rfl, h⟩

theorem kept_next (h : Inv parser) : Kept (session.next parser) := ⟨true, _, rfl, h⟩

theorem store_room {size : ℕ} {buffer : List Byte} (h : buffer.length < size) :
    store size buffer c = .ok (buffer ++ [c]) := if_pos h

theorem store_full {size : ℕ} {buffer : List Byte} (h : ¬buffer.length < size) :
    store size buffer c = .error .undefinedBehaviour := if_neg h

/-- A byte that is stored if there is room for it. -/
theorem keptIf_store {size : ℕ} {buffer : List Byte}
    {step : List Byte → Exec (Bool × HttpClientSession)}
    (h : buffer.length < size → Kept (step (buffer ++ [c]))) :
    KeptIf (buffer.length < size) (do let buffer ← store size buffer c; step buffer) := by
  constructor
  · intro hroom
    rw [store_room hroom]
    exact h hroom
  · intro hroom
    rw [store_full hroom]
    rfl

/-- A branch in which nothing is stored without a test. -/
theorem KeptIf.imp {p room : Prop} {step : Exec (Bool × HttpClientSession)} (hp : p)
    (h : KeptIf room step) : KeptIf (p → room) step :=
  ⟨fun hroom => h.1 (hroom hp), fun hroom => h.2 fun hr => hroom fun _ => hr⟩

theorem Kept.vacuous {p room : Prop} {step : Exec (Bool × HttpClientSession)} (hp : ¬p)
    (h : Kept step) : KeptIf (p → room) step :=
  ⟨fun _ => h, fun hroom => absurd (fun h => absurd h hp) hroom⟩

theorem statusVersion_kept (h : Inv session.responseParser) : Kept (session.statusVersion c) := by
  unfold HttpClientSession.statusVersion
  dsimp only
  split_ifs with hblank hshort hprintable hlong
  · exact kept_fail h
  · exact kept_next ⟨h.version, h.headerValue, nofun, nofun⟩
  · exact kept_fail h
  · have hroom : session.responseParser.version.length < MAX_HTTP_VERSION + 8 := by omega
    rw [store_room hroom]
    apply kept_next
    refine ⟨?_, h.headerValue, h.fixedBody, h.chunks⟩
    rw [List.length_append, List.length_singleton]
    omega
  · exact kept_fail h

theorem statusGap1_kept (h : Inv session.responseParser) : Kept (session.statusGap1 c) := by
  unfold HttpClientSession.statusGap1
  dsimp only
  split_ifs
  · exact kept_next ⟨h.version, h.headerValue, nofun, nofun⟩
  · exact kept_fail h
  · exact kept_next h

theorem statusStatus_keptIf (h : Inv session.responseParser) :
    KeptIf (¬isCR c ∧ ¬isLF c ∧ ¬isWhitespace c →
      session.responseParser.statusReason.length < MAX_HTTP_VERSION + 8)
      (session.statusStatus unspecified c) := by
  unfold HttpClientSession.statusStatus
  dsimp only
  split_ifs with hline hblank
  · apply Kept.vacuous
    · intro ⟨hCR, hLF, _⟩
      rw [Bool.or_eq_true] at hline
      exact hline.elim hCR hLF
    · exact kept_fail h
  · apply Kept.vacuous fun hstored => hstored.2.2 hblank
    exact kept_next ⟨h.version, h.headerValue, nofun, nofun⟩
  · rw [Bool.or_eq_true, not_or] at hline
    apply KeptIf.imp ⟨hline.1, hline.2, hblank⟩
    apply keptIf_store
    intro _
    exact kept_next ⟨h.version, h.headerValue, h.fixedBody, h.chunks⟩

theorem statusGap2_keptIf (h : Inv session.responseParser) :
    KeptIf (¬isCR c ∧ ¬isLF c →
      session.responseParser.statusReason.length < MAX_HTTP_VERSION + 8)
      (session.statusGap2 c) := by
  unfold HttpClientSession.statusGap2
  dsimp only
  by_cases hCR : isCR c
  · rw [if_pos hCR]
    apply Kept.vacuous fun hstored => hstored.1 hCR
    exact kept_next ⟨h.version, h.headerValue, nofun, nofun⟩
  · by_cases hLF : isLF c
    · rw [if_neg hCR, if_pos hLF]
      exact Kept.vacuous (fun hstored => hstored.2 hLF) (kept_fail h)
    · rw [if_neg hCR, if_neg hLF]
      apply KeptIf.imp ⟨hCR, hLF⟩
      apply keptIf_store
      intro _
      split_ifs
      · exact kept_next ⟨h.version, h.headerValue, h.fixedBody, h.chunks⟩
      · exact kept_next ⟨h.version, h.headerValue, nofun, nofun⟩

theorem statusReason_keptIf (h : Inv session.responseParser) :
    KeptIf (isAsciiPrintable c ∨ isWhitespace c →
      session.responseParser.statusReason.length < MAX_HTTP_VERSION + 8)
      (session.statusReason c) := by
  unfold HttpClientSession.statusReason
  dsimp only
  split_ifs with hCR hstored
  · apply Kept.vacuous
    · intro hstored
      have hall : ∀ c : Byte, isCR c → ¬(isAsciiPrintable c ∨ isWhitespace c) := by decide +kernel
      exact hall c hCR hstored
    · exact kept_next ⟨h.version, h.headerValue, nofun, nofun⟩
  · rw [Bool.or_eq_true] at hstored
    apply KeptIf.imp hstored
    apply keptIf_store
    intro _
    exact kept_next ⟨h.version, h.headerValue, h.fixedBody, h.chunks⟩
  · rw [Bool.or_eq_true] at hstored
    exact Kept.vacuous hstored (kept_fail h)

theorem statusCRSeen_kept (h : Inv session.responseParser) : Kept (session.statusCRSeen c) := by
  unfold HttpClientSession.statusCRSeen
  dsimp only
  split_ifs
  · exact kept_next ⟨h.version, h.headerValue, nofun, nofun⟩
  · exact kept_fail h

theorem headerFieldName_keptIf (h : Inv session.responseParser) :
    KeptIf (isAsciiPrintable c ∧ c ≠ ASCII_COLON →
      session.responseParser.headerName.length < MAX_HTTP_FIELD_NAME + 8)
      (session.headerFieldName c) := by
  have hnever : isCR c → ¬(isAsciiPrintable c ∧ c ≠ ASCII_COLON) := by
    have hall : ∀ c : Byte, isCR c → ¬isAsciiPrintable c := by decide +kernel
    exact fun hCR hstored => hall c hCR hstored.1
  unfold HttpClientSession.headerFieldName
  dsimp only
  split_ifs with hCR _ hcolon _ hprintable
  · apply Kept.vacuous (hnever hCR)
    exact kept_next ⟨h.version, h.headerValue, nofun, nofun⟩
  · exact Kept.vacuous (hnever hCR) (kept_fail h)
  · exact Kept.vacuous (fun hstored => hstored.2 hcolon) (kept_fail h)
  · apply Kept.vacuous fun hstored => hstored.2 hcolon
    exact kept_next ⟨h.version, h.headerValue, nofun, nofun⟩
  · apply KeptIf.imp ⟨hprintable, hcolon⟩
    apply keptIf_store
    intro _
    exact kept_next ⟨h.version, h.headerValue, h.fixedBody, h.chunks⟩
  · exact Kept.vacuous (fun hstored => hprintable hstored.1) (kept_fail h)

theorem headerGap1_kept (h : Inv session.responseParser) : Kept (session.headerGap1 c) := by
  unfold HttpClientSession.headerGap1
  dsimp only
  split_ifs
  · exact kept_next h
  · apply kept_next
    refine ⟨h.version, ?_, nofun, nofun⟩
    show 1 ≤ MAX_HTTP_FIELD_VALUE
    decide
  · exact kept_fail h

/-- A header changes only what is noted of it. -/
theorem addResponseHeader_eq (parser : HttpResponseParser) :
    ∃ isChunked specifiedContentLength contentType headerChain,
      addResponseHeader unspecified parser = { parser with
        isChunked
        specifiedContentLength
        contentType
        headerChain } := by
  unfold addResponseHeader
  cases hread : parser.addReadHeader with
  | error fault => exact ⟨_, _, _, _, rfl⟩
  | ok noted =>
    unfold HttpResponseParser.addReadHeader at hread
    obtain ⟨nativeName, -, hread⟩ := Exec.bind_eq_ok.mp hread
    obtain ⟨nativeValue, -, hread⟩ := Exec.bind_eq_ok.mp hread
    obtain ⟨after, hnote, hread⟩ := Exec.bind_eq_ok.mp hread
    have hafter : ∃ isChunked specifiedContentLength contentType, after = { parser with
        isChunked
        specifiedContentLength
        contentType } := by
      unfold HttpResponseParser.noteHeader at hnote
      obtain ⟨isTransferEncoding, -, hnote⟩ := Exec.bind_eq_ok.mp hnote
      cases isTransferEncoding with
      | true =>
        obtain ⟨chunked, -, hnote⟩ := Exec.bind_eq_ok.mp hnote
        cases chunked with
        | true => exact ⟨_, _, _, (Except.ok.inj hnote).symm⟩
        | false => exact ⟨_, _, _, (Except.ok.inj hnote).symm⟩
      | false =>
        obtain ⟨isContentLength, -, hnote⟩ := Exec.bind_eq_ok.mp hnote
        cases isContentLength with
        | true =>
          obtain ⟨n, -, hnote⟩ := Exec.bind_eq_ok.mp hnote
          exact ⟨_, _, _, (Except.ok.inj hnote).symm⟩
        | false =>
          obtain ⟨isContentType, -, hnote⟩ := Exec.bind_eq_ok.mp hnote
          cases isContentType with
          | true => exact ⟨_, _, _, (Except.ok.inj hnote).symm⟩
          | false => exact ⟨_, _, _, (Except.ok.inj hnote).symm⟩
    obtain ⟨isChunked, specifiedContentLength, contentType, hafter⟩ := hafter
    rw [hafter] at hread
    exact ⟨_, _, _, _, (Except.ok.inj hread).symm⟩

theorem headerFieldContent_kept (h : Inv session.responseParser) :
    Kept (session.headerFieldContent unspecified c) := by
  unfold HttpClientSession.headerFieldContent
  dsimp only
  split_ifs with _ _ hlong
  · obtain ⟨_, _, _, _, hadd⟩ := @addResponseHeader_eq unspecified
      { session.responseParser with state := .HEADER_CR_SEEN }
    rw [hadd]
    exact kept_next ⟨h.version, h.headerValue, nofun, nofun⟩
  · exact kept_fail h
  · have hroom : session.responseParser.headerValue.length < MAX_HTTP_FIELD_VALUE + 8 := by omega
    rw [store_room hroom]
    apply kept_next
    refine ⟨h.version, ?_, h.fixedBody, h.chunks⟩
    rw [List.length_append, List.length_singleton]
    omega
  · exact kept_fail h

theorem headerCRSeen_kept (h : Inv session.responseParser) : Kept (session.headerCRSeen c) := by
  unfold HttpClientSession.headerCRSeen
  dsimp only
  split_ifs
  · exact kept_next ⟨h.version, Nat.zero_le _, nofun, nofun⟩
  · exact kept_fail h

theorem startFixedBody_kept (h : Inv parser) (hlength : 0 ≤ parser.specifiedContentLength) :
    Kept (session.startFixedBody parser) := by
  unfold HttpClientSession.startFixedBody SLHAlloc
  rw [if_pos hlength]
  exact kept_next ⟨h.version, h.headerValue, fun _ => ⟨rfl, le_rfl⟩, nofun⟩

theorem startChunks_kept (h : Inv parser) : Kept (session.startChunks parser) := by
  have hsize : 0 ≤ if 0 < parser.specifiedContentLength then parser.specifiedContentLength
      else HTTP_CLIENT_MAX_RESPONSE := by
    split_ifs with hspecified
    · exact hspecified.le
    · decide
  unfold HttpClientSession.startChunks SLHAlloc
  dsimp only
  rw [if_pos hsize]
  exact kept_next ⟨h.version, h.headerValue, nofun, fun _ => ⟨_, rfl, le_rfl⟩⟩

theorem endCRSeen_kept (h : Inv session.responseParser)
    (hstate : session.responseParser.state = .END_CR_SEEN) : Kept (session.endCRSeen c left) := by
  have helse {p : Prop} {state : ResponseState} (hne : state ≠ .END_CR_SEEN)
      (heq : session.responseParser.state = state) : p := absurd (heq.symm.trans hstate) hne
  unfold HttpClientSession.endCRSeen
  dsimp only
  split_ifs with _ _ hspecified hleft
  · exact startChunks_kept h
  · exact startFixedBody_kept h hspecified.le
  · apply startFixedBody_kept
    · exact ⟨h.version, h.headerValue, helse (by decide), h.chunks⟩
    · exact Int.natCast_nonneg left
  · refine ⟨true, _, rfl, h.version, h.headerValue, h.fixedBody, ?_⟩
    intro hchunks
    rw [hstate] at hchunks
    cases hchunks
  · exact kept_fail h

theorem readingFixedBody_keptIf (h : Inv session.responseParser)
    (hstate : session.responseParser.state = .READING_FIXED_BODY) :
    KeptIf (0 < session.responseParser.remainingContentLength) (session.readingFixedBody c) := by
  obtain ⟨hsize, hremaining⟩ := h.fixedBody hstate
  have hchunks (resp : Option HttpClientResponse) (hreads : ReadsChunks session.responseParser.state) :
      ∃ other, resp = some other ∧ 0 ≤ other.contentLength := by
    rw [hstate] at hreads
    cases hreads
  unfold HttpClientSession.readingFixedBody HttpResponseParser.storeContent
  dsimp only
  rw [hsize]
  constructor
  · intro hroom
    have hindex : 0 ≤ session.responseParser.specifiedContentLength -
          session.responseParser.remainingContentLength ∧
        session.responseParser.specifiedContentLength -
          session.responseParser.remainingContentLength <
            session.responseParser.specifiedContentLength := by omega
    have hless : session.responseParser.remainingContentLength - 1 ≤
        session.responseParser.specifiedContentLength := by omega
    rw [if_pos hindex]
    show Kept (if session.responseParser.remainingContentLength - 1 ≤ 0 then _ else _)
    split_ifs
    · exact ⟨true, _, rfl, h.version, h.headerValue, fun _ => ⟨rfl, hless⟩, hchunks _⟩
    · exact kept_next ⟨h.version, h.headerValue, fun _ => ⟨rfl, hless⟩, hchunks _⟩
  · intro hroom
    rw [if_neg (by omega)]
    rfl

theorem readingChunkHeader_kept (h : Inv session.responseParser)
    (hstate : session.responseParser.state = .READING_CHUNK_HEADER) :
    Kept (session.readingChunkHeader c) := by
  have hchunks := h.chunks (by rw [hstate]; rfl)
  unfold HttpClientSession.readingChunkHeader
  dsimp only
  split_ifs
  · exact kept_next ⟨h.version, h.headerValue, nofun, nofun⟩
  · exact kept_next ⟨h.version, h.headerValue, nofun, fun _ => hchunks⟩
  · cases Hexadecimal.digit? c with
    | some value => exact kept_next ⟨h.version, h.headerValue, h.fixedBody, h.chunks⟩
    | none => exact kept_fail h

theorem chunkHeaderCRSeen_kept (h : Inv session.responseParser)
    (hstate : session.responseParser.state = .CHUNK_HEADER_CR_SEEN) :
    Kept (session.chunkHeaderCRSeen c) := by
  have hchunks := h.chunks (by rw [hstate]; rfl)
  unfold HttpClientSession.chunkHeaderCRSeen
  dsimp only
  split_ifs
  · exact kept_next ⟨h.version, h.headerValue, nofun, fun _ => hchunks⟩
  · exact kept_next ⟨h.version, h.headerValue, nofun, nofun⟩
  · exact kept_next h
  · exact kept_fail h

/-- The test before the store is enough, as the response is there and its length is not negative. -/
theorem readingChunkData_kept (h : Inv session.responseParser)
    (hstate : session.responseParser.state = .READING_CHUNK_DATA) :
    Kept (session.readingChunkData c) := by
  obtain ⟨resp, hresp, hlength⟩ := h.chunks (by rw [hstate]; rfl)
  have hbody {p : Prop} (hfixed : session.responseParser.state = .READING_FIXED_BODY) : p := by
    rw [hstate] at hfixed
    cases hfixed
  unfold HttpClientSession.readingChunkData HttpResponseParser.storeContent
  dsimp only
  split_ifs with hremaining hCR
  · rw [hresp]
    dsimp only
    by_cases hroom : resp.contentLength < session.responseParser.contentSize
    · have hnext : 0 ≤ resp.contentLength + 1 := by omega
      rw [if_pos hroom, if_pos ⟨hlength, hroom⟩]
      exact kept_next ⟨h.version, h.headerValue, hbody, fun _ => ⟨_, rfl, hnext⟩⟩
    · rw [if_neg hroom]
      exact kept_fail h
  · exact kept_next ⟨h.version, h.headerValue, nofun, fun _ => ⟨resp, hresp, hlength⟩⟩
  · exact kept_fail h

theorem chunkDataCRSeen_kept (h : Inv session.responseParser)
    (hstate : session.responseParser.state = .CHUNK_DATA_CR_SEEN) :
    Kept (session.chunkDataCRSeen c) := by
  have hchunks := h.chunks (by rw [hstate]; rfl)
  unfold HttpClientSession.chunkDataCRSeen
  dsimp only
  split_ifs
  · exact kept_next ⟨h.version, h.headerValue, nofun, fun _ => hchunks⟩
  · exact kept_fail h

theorem readingChunkTrailer_kept (h : Inv session.responseParser) :
    Kept (session.readingChunkTrailer c) := by
  unfold HttpClientSession.readingChunkTrailer
  dsimp only
  split_ifs
  · exact kept_next ⟨h.version, h.headerValue, nofun, nofun⟩
  · exact kept_fail h

theorem inv_make : Inv makeHttpResponseParser :=
  ⟨Nat.zero_le _, Nat.zero_le _, nofun, nofun⟩

theorem chunkTrailerCRSeen_kept (h : Inv session.responseParser) :
    Kept (session.chunkTrailerCRSeen c) := by
  unfold HttpClientSession.chunkTrailerCRSeen
  dsimp only
  split_ifs
  · exact ⟨true, _, rfl, inv_make⟩
  · exact kept_fail h

/-- A step has a meaning exactly if there is room, and the parser then keeps to its invariant. -/
theorem processByte_keptIf (h : Inv session.responseParser) :
    KeptIf (Room session.responseParser c) (session.processByte unspecified c left) := by
  unfold HttpClientSession.processByte Room
  cases hstate : session.responseParser.state with
  | RESP_STATUS_VERSION => exact (statusVersion_kept h).keptIf
  | RESP_STATUS_GAP1 => exact (statusGap1_kept h).keptIf
  | RESP_STATUS_STATUS => exact statusStatus_keptIf h
  | RESP_STATUS_GAP2 => exact statusGap2_keptIf h
  | RESP_STATUS_REASON => exact statusReason_keptIf h
  | RESP_STATUS_CR_SEEN => exact (statusCRSeen_kept h).keptIf
  | HEADER_FIELD_NAME => exact headerFieldName_keptIf h
  | HEADER_GAP1 => exact (headerGap1_kept h).keptIf
  | HEADER_FIELD_CONTENT => exact (headerFieldContent_kept h).keptIf
  | HEADER_GAP2 => exact (kept_next h).keptIf
  | HEADER_CR_SEEN => exact (headerCRSeen_kept h).keptIf
  | END_CR_SEEN => exact (endCRSeen_kept h hstate).keptIf
  | READING_FIXED_BODY => exact readingFixedBody_keptIf h hstate
  | READING_CHUNK_HEADER => exact (readingChunkHeader_kept h hstate).keptIf
  | CHUNK_HEADER_CR_SEEN => exact (chunkHeaderCRSeen_kept h hstate).keptIf
  | READING_CHUNK_DATA => exact (readingChunkData_kept h hstate).keptIf
  | CHUNK_DATA_CR_SEEN => exact (chunkDataCRSeen_kept h hstate).keptIf
  | READING_CHUNK_TRAILER => exact (readingChunkTrailer_kept h).keptIf
  | CHUNK_TRAILER_CR_SEEN => exact (chunkTrailerCRSeen_kept h).keptIf

end Steps

section Runs

variable {unspecified : Unspecified} {session : HttpClientSession}

theorem fragment_kept (h : Inv session.responseParser) {data : List Byte} {goesOn : Bool}
    {session' : HttpClientSession}
    (hrun : processHttpResponseFragment unspecified session data = .ok (goesOn, session')) :
    Inv session'.responseParser := by
  induction data generalizing session with
  | nil =>
    cases hrun
    exact h
  | cons c data ih =>
    rw [processHttpResponseFragment] at hrun
    obtain ⟨⟨more, after⟩, hstep, hrest⟩ := Exec.bind_eq_ok.mp hrun
    have hroom : Room session.responseParser c := by
      by_contra hno
      rw [(processByte_keptIf h).2 hno] at hstep
      cases hstep
    obtain ⟨_, _, hkept, hinv⟩ := (@processByte_keptIf unspecified _ _ _ h).1 hroom
    rw [hstep] at hkept
    cases hkept
    cases more with
    | true => exact ih hinv hrest
    | false =>
      cases hrest
      exact hinv

theorem fragment_iff (h : Inv session.responseParser) (data : List Byte) :
    (∃ result, processHttpResponseFragment unspecified session data = .ok result) ↔
      FragmentWithin unspecified session data := by
  induction data generalizing session with
  | nil => exact iff_of_true ⟨_, rfl⟩ trivial
  | cons c data ih =>
    rw [processHttpResponseFragment, FragmentWithin]
    by_cases hroom : Room session.responseParser c
    · obtain ⟨goesOn, after, hstep, hinv⟩ :=
        (@processByte_keptIf unspecified _ _ data.length h).1 hroom
      rw [hstep, Exec.ok_bind, and_iff_right hroom]
      dsimp only
      cases goesOn with
      | true =>
        rw [if_pos rfl, ih hinv]
        constructor
        · intro hwithin session' heq
          cases heq
          exact hwithin
        · exact fun hwithin => hwithin after rfl
      | false =>
        rw [if_neg Bool.false_ne_true]
        apply iff_of_true ⟨_, rfl⟩
        intro session' heq
        exact absurd (Prod.mk.inj (Except.ok.inj heq)).1 Bool.false_ne_true
    · rw [(processByte_keptIf h).2 hroom]
      constructor
      · intro ⟨result, hrun⟩
        cases hrun
      · exact fun hwithin => absurd hwithin.1 hroom

theorem receive_iff (h : Inv session.responseParser) (fragments : List (List Byte)) :
    (∃ result, receive unspecified session fragments = .ok result) ↔
      Within unspecified session fragments := by
  induction fragments generalizing session with
  | nil => exact iff_of_true ⟨_, rfl⟩ trivial
  | cons fragment fragments ih =>
    rw [receive, Within, ← fragment_iff h]
    cases hrun : processHttpResponseFragment unspecified session fragment with
    | error fault =>
      constructor
      · intro ⟨result, hall⟩
        cases hall
      · intro ⟨⟨result, hfirst⟩, _⟩
        cases hfirst
    | ok result =>
      obtain ⟨status, after⟩ := result
      have hrest := ih (fragment_kept h hrun)
      rw [Exec.ok_bind]
      constructor
      · intro ⟨all, hall⟩
        obtain ⟨others, hothers, -⟩ := Exec.bind_eq_ok.mp hall
        refine ⟨⟨_, rfl⟩, ?_⟩
        intro _ _ heq
        cases heq
        exact hrest.mp ⟨others, hothers⟩
      · intro ⟨_, hwithin⟩
        obtain ⟨others, hothers⟩ := hrest.mpr (hwithin status after rfl)
        dsimp only
        rw [hothers]
        exact ⟨_, rfl⟩

end Runs

/-- Whatever a server sends, in whatever fragments, is stored where it may be exactly if there is
room for every byte that is read. -/
theorem receive_stores_iff (unspecified : Unspecified) (fragments : List (List Byte)) :
    (∃ result, receive unspecified {} fragments = .ok result) ↔ Within unspecified {} fragments :=
  receive_iff inv_make fragments

/-- What is left open does not matter to responses in ASCII. -/
def noneUnspecified : Unspecified where
  status _ := 0
  native text := text
  isChunked parser := parser.isChunked
  specifiedContentLength parser := parser.specifiedContentLength
  contentType parser := parser.contentType

/-- One byte more than the body has. -/
theorem not_receive_stores :
    receive noneUnspecified {}
        [CString.ascii "HTTP/1.1 200 OK\r\nContent-Length: 1\r\n\r\nab"] =
      .error .undefinedBehaviour := by
  decide +kernel

end ClientResponse
end Http
end ZoweCommon
