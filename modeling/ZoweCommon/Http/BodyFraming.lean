import ZoweCommon.Http.RequestLines

/-! How the body of a request is announced, and how the parser comes to read it. -/
namespace ZoweCommon
namespace Http

open HttpRequestParser

/-- A body without bytes is none. -/
inductive BodyFraming
  | chunked
  | bytes (n : ℕ)
  deriving DecidableEq

def isDecimalDigit (c : Byte) : Bool := 0x30 ≤ c.toNat && c.toNat ≤ 0x39

def decimalValue (text : List Byte) : ℕ := Decimal.value (text.map fun c => c.toNat - 0x30)

/-- A number of bytes, in the range of an `int`. -/
def IsLength (text : List Byte) : Prop :=
  text ≠ [] ∧ (∀ c ∈ text, isDecimalDigit c) ∧ decimalValue text < 2 ^ 31

instance (text : List Byte) : Decidable (IsLength text) := inferInstanceAs (Decidable (_ ∧ _))

def lengthTexts (lines : List HeaderLine) : List (List Byte) :=
  (lines.filter fun l => IsText l.name "Content-Length").map HeaderLine.value

def AnnouncesChunks (l : HeaderLine) : Prop :=
  IsText l.name "Transfer-Encoding" ∧ IsText l.value "chunked"

instance : DecidablePred AnnouncesChunks := fun _ => inferInstanceAs (Decidable (_ ∧ _))

def announcedLength (lines : List HeaderLine) : ℕ :=
  match lengthTexts lines with
  | [] => 0
  | text :: texts => if ∀ t ∈ texts, t = text then decimalValue text else 0

/-- What the lines of a header say of the body, if they say anything. -/
def announced (lines : List HeaderLine) : Option BodyFraming :=
  if ∀ text ∈ lengthTexts lines, IsLength text then
    if ∃ l ∈ lines, AnnouncesChunks l then some .chunked
    else some (.bytes (announcedLength lines))
  else none

def ReadsBody (parser : HttpRequestParser) : BodyFraming → Prop
  | .chunked => parser.state = .READING_CHUNK_SIZE
  | .bytes 0 => parser.state = .REQUEST_METHOD
  | .bytes (n + 1) => parser.state = .READING_FIXED_BODY ∧ parser.remainingContentLength = n + 1

/-- The parser has read the line of a request and no header. -/
structure AtHeader (parser : HttpRequestParser) : Prop where
  state : parser.state = .HEADER_FIELD_NAME
  headerName : parser.headerName = []
  isChunked : parser.isChunked = false
  specifiedContentLength : parser.specifiedContentLength = -1

def headerWire (lines : List HeaderLine) : List Byte := lines.flatMap HeaderLine.wire ++ CRLF

/-- The parser reads the body after a header as it is announced. -/
def FramingDecided (parser : HttpRequestParser) (lines : List HeaderLine) : Prop :=
  match announced lines with
  | some framing => ∃ parser', processHttpFragment parser (headerWire lines) = .ok (true, parser') ∧
      ReadsBody parser' framing
  | none => ∃ parser', processHttpFragment parser (headerWire lines) = .ok (false, parser')

/-- What the headers must be for that. -/
structure FramingAgrees (lines : List HeaderLine) : Prop where
  readable : ∀ l ∈ lines, l.Readable
  lengths : ∀ text ∈ lengthTexts lines, IsLength text
  chunks : (∃ l ∈ lines, l.Chunks) → ∃ l ∈ lines, AnnouncesChunks l
  length : (¬∃ l ∈ lines, l.Chunks) → (lengthAfter lines (-1)).toNat = announcedLength lines

def framingRead (lines : List HeaderLine) : BodyFraming :=
  if ∃ l ∈ lines, l.Chunks then .chunked else .bytes (lengthAfter lines (-1)).toNat

section Framing

variable {parser : HttpRequestParser} {lines : List HeaderLine}

/-- A text that is a literal is one as far as it goes. -/
theorem IsText.isStart {text : List Byte} {s : String}
    (hs : ∀ d ∈ CString.ascii s, isAsciiPrintable d) (h : IsText text s) : IsStart text s := by
  have hsame : text.map compared = text.map asciiUpper := by
    apply List.map_congr_left
    intro c hc
    unfold compared
    have hmem : asciiUpper c ∈ (CString.ascii s).map asciiUpper := by
      rw [← h]
      exact List.mem_map_of_mem hc
    obtain ⟨d, hd, hupper⟩ := List.mem_map.mp hmem
    have hall : ∀ d : Byte, isAsciiPrintable d → asciiUpper d ≠ asciiUpper 0x80 := by decide +kernel
    rw [if_neg]
    rintro rfl
    exact hall d (hs d hd) hupper
  unfold IsStart terminated
  rw [hsame, h]
  exact List.prefix_append _ _

theorem AnnouncesChunks.chunks {l : HeaderLine} (h : AnnouncesChunks l) : l.Chunks := by
  obtain ⟨hname, hvalue⟩ := h
  have hne : l.value ≠ [] := by
    intro hnil
    rw [hnil] at hvalue
    exact absurd hvalue (by decide)
  have hrole : headerRole l.name = .transferEncoding := if_pos (hname.isStart (by decide))
  refine ⟨hne, ?_⟩
  unfold HeaderRole.chunks
  rw [hrole, decide_eq_true (hvalue.isStart (by decide))]
  rfl

theorem process_header (hstart : AtHeader parser) (hlines : ∀ l ∈ lines, l.Accepted)
    (hreadable : ∀ l ∈ lines, l.Readable) (rest : List Byte) :
    processHttpFragment parser (headerWire lines ++ rest) =
      processHttpFragment (startBody (lines.foldl readLine parser)) rest := by
  obtain ⟨_, _, _, _, hread⟩ := readLines_eq hstart.headerName lines
  unfold headerWire
  rw [List.append_assoc, process_lines hlines hstart.state hstart.headerName, if_pos hreadable]
  apply process_endOfHeader
  · rw [hread]
    exact hstart.state
  · rw [hread]
    exact hstart.headerName

/-- The headers agree if the parser takes them for what they announce. -/
theorem framingAgrees_iff : FramingAgrees lines ↔
    (∀ l ∈ lines, l.Readable) ∧ announced lines = some (framingRead lines) := by
  unfold announced framingRead
  by_cases hlengths : ∀ text ∈ lengthTexts lines, IsLength text
  · rw [if_pos hlengths]
    by_cases hannounced : ∃ l ∈ lines, AnnouncesChunks l
    · have hchunks : ∃ l ∈ lines, l.Chunks := by
        obtain ⟨l, hl, hchunks⟩ := hannounced
        exact ⟨l, hl, hchunks.chunks⟩
      rw [if_pos hannounced, if_pos hchunks]
      constructor
      · exact fun h => ⟨h.readable, rfl⟩
      · exact fun h => ⟨h.1, hlengths, fun _ => hannounced, fun h => absurd hchunks h⟩
    · rw [if_neg hannounced]
      by_cases hchunks : ∃ l ∈ lines, l.Chunks
      · rw [if_pos hchunks]
        exact iff_of_false (fun h => hannounced (h.chunks hchunks)) fun h => nomatch h.2
      · rw [if_neg hchunks, Option.some_inj, BodyFraming.bytes.injEq]
        constructor
        · exact fun h => ⟨h.readable, (h.length hchunks).symm⟩
        · exact fun h => ⟨h.1, hlengths, fun h => absurd h hchunks, fun _ => h.2.symm⟩
  · rw [if_neg hlengths]
    exact iff_of_false (fun h => hlengths h.lengths) fun h => nomatch h.2

/-- What the parser has noted for the body when the header ends. -/
theorem readLines_noted (hstart : AtHeader parser) :
    (lines.foldl readLine parser).isChunked = decide (∃ l ∈ lines, l.Chunks) ∧
      (lines.foldl readLine parser).specifiedContentLength = lengthAfter lines (-1) := by
  obtain ⟨_, _, _, _, hread⟩ := readLines_eq hstart.headerName lines
  rw [hread]
  dsimp only
  rw [hstart.isChunked, hstart.specifiedContentLength]
  constructor
  · rw [Bool.false_or, Bool.eq_iff_iff, List.any_eq_true, decide_eq_true_eq]
    simp only [decide_eq_true_eq]
  · rfl

theorem readsBody_startBody (hstart : AtHeader parser) (framing : BodyFraming) :
    ReadsBody (startBody (lines.foldl readLine parser)) framing ↔ framing = framingRead lines := by
  obtain ⟨hchunked, hlength⟩ := @readLines_noted parser lines hstart
  unfold startBody framingRead
  rw [hchunked, hlength]
  by_cases hchunks : ∃ l ∈ lines, l.Chunks
  · rw [if_pos (decide_eq_true hchunks), if_pos hchunks]
    match framing with
    | .chunked => exact iff_of_true rfl rfl
    | .bytes 0 => exact iff_of_false nofun nofun
    | .bytes (n + 1) => exact iff_of_false (fun h => nomatch h.1) nofun
  · rw [if_neg (by rw [decide_eq_false hchunks]; exact Bool.false_ne_true), if_neg hchunks]
    by_cases hnone : lengthAfter lines (-1) ≤ 0
    · have hzero : (lengthAfter lines (-1)).toNat = 0 := by omega
      rw [if_pos hnone, hzero]
      match framing with
      | .chunked => exact iff_of_false nofun nofun
      | .bytes 0 => exact iff_of_true rfl rfl
      | .bytes (n + 1) => exact iff_of_false (fun h => nomatch h.1) nofun
    · rw [if_neg hnone]
      match framing with
      | .chunked => exact iff_of_false nofun nofun
      | .bytes 0 =>
        apply iff_of_false nofun
        rw [BodyFraming.bytes.injEq]
        omega
      | .bytes (n + 1) =>
        rw [BodyFraming.bytes.injEq]
        constructor
        · rintro ⟨-, hremaining⟩
          dsimp only at hremaining
          omega
        · intro h
          refine ⟨rfl, ?_⟩
          dsimp only
          omega

theorem readsBody_after_header (hstart : AtHeader parser) (hlines : ∀ l ∈ lines, l.Accepted)
    (hreadable : ∀ l ∈ lines, l.Readable) (framing : BodyFraming) :
    (∃ parser', processHttpFragment parser (headerWire lines) = .ok (true, parser') ∧
        ReadsBody parser' framing) ↔ framing = framingRead lines := by
  have hrun := process_header hstart hlines hreadable []
  rw [List.append_nil] at hrun
  rw [← readsBody_startBody hstart framing, hrun]
  constructor
  · rintro ⟨parser', hok, hreads⟩
    rwa [(Prod.mk.inj (Except.ok.inj hok)).2]
  · exact fun hreads => ⟨_, rfl, hreads⟩

/-- The body is read as it is announced by the headers with the exact names if and only if they
can be read, all lengths are numbers of bytes, and the names and values that only begin as those of
the framing say the same. -/
theorem framing_decided_iff (hstart : AtHeader parser) (hlines : ∀ l ∈ lines, l.Accepted) :
    FramingDecided parser lines ↔ FramingAgrees lines := by
  rw [framingAgrees_iff]
  by_cases hreadable : ∀ l ∈ lines, l.Readable
  · have hframing := readsBody_after_header hstart hlines hreadable
    unfold FramingDecided
    cases hannounced : announced lines with
    | some framing =>
      dsimp only
      rw [hframing, Option.some_inj]
      exact ⟨fun h => ⟨hreadable, h⟩, fun h => h.2⟩
    | none =>
      have hrun := process_header hstart hlines hreadable []
      rw [List.append_nil] at hrun
      dsimp only
      rw [hrun]
      apply iff_of_false
      · rintro ⟨parser', hok⟩
        exact absurd (Prod.mk.inj (Except.ok.inj hok)).1 nofun
      · exact fun h => nomatch h.2
  · have hrun : processHttpFragment parser (headerWire lines) = .error .undefinedBehaviour := by
      unfold headerWire
      rw [process_lines hlines hstart.state hstart.headerName, if_neg hreadable]
    apply iff_of_false
    · unfold FramingDecided
      rw [hrun]
      split
      · rintro ⟨parser', hok, -⟩
        exact absurd hok nofun
      · rintro ⟨parser', hok⟩
        exact absurd hok nofun
    · exact fun h => hreadable h.1

end Framing

/-- A length of five is one, and decides the framing. -/
theorem framing_decided_length : FramingDecided
    { makeHttpRequestParser with state := .HEADER_FIELD_NAME }
    [{ name := CString.ascii "content-length", gap := [32], value := CString.ascii "5" }] := by
  apply (framing_decided_iff ⟨rfl, rfl, rfl, rfl⟩ ?_).mpr
  · constructor
    · decide +kernel
    · decide +kernel
    · decide +kernel
    · decide +kernel
  · decide

/-- A header named by the first letter of another is taken for it, and a value too. -/
theorem not_framing_decided_letter : ¬FramingDecided
    { makeHttpRequestParser with state := .HEADER_FIELD_NAME }
    [{ name := CString.ascii "T", gap := [32], value := CString.ascii "c" }] := by
  have hannounced : announced
      [{ name := CString.ascii "T", gap := [32], value := CString.ascii "c" }] =
        some (.bytes 0) := by decide
  unfold FramingDecided
  rw [hannounced]
  dsimp only
  rw [readsBody_after_header ⟨rfl, rfl, rfl, rfl⟩]
  · decide
  · decide
  · decide

end Http
end ZoweCommon
