import ZoweCommon.Http.HeaderText

/-! The lines of a request, and what the parser makes of them. -/
namespace ZoweCommon
namespace Http

open HttpRequestParser

def CRLF : List Byte := [13, 10]

structure HeaderLine where
  name : List Byte
  gap : List Byte
  value : List Byte

namespace HeaderLine

def wire (l : HeaderLine) : List Byte := l.name ++ ASCII_COLON :: (l.gap ++ (l.value ++ CRLF))

/-- The characters and lengths that the parser takes. -/
structure Accepted (l : HeaderLine) : Prop where
  name_ne : l.name ≠ []
  name_printable : ∀ c ∈ l.name, isAsciiPrintable c ∧ c ≠ ASCII_COLON
  name_fits : l.name.length ≤ MAX_HTTP_FIELD_NAME + 8
  gap_blank : ∀ c ∈ l.gap, isWhitespace c
  value_first : ∀ c ∈ l.value.head?, isAsciiPrintable c
  value_line : ∀ c ∈ l.value, c ≠ 10 ∧ c ≠ 13
  value_fits : l.value.length ≤ MAX_HTTP_FIELD_VALUE

instance (l : HeaderLine) : Decidable l.Accepted :=
  decidable_of_iff (l.name ≠ [] ∧ (∀ c ∈ l.name, isAsciiPrintable c ∧ c ≠ ASCII_COLON) ∧
    l.name.length ≤ MAX_HTTP_FIELD_NAME + 8 ∧ (∀ c ∈ l.gap, isWhitespace c) ∧
    (∀ c ∈ l.value.head?, isAsciiPrintable c) ∧ (∀ c ∈ l.value, c ≠ 10 ∧ c ≠ 13) ∧
    l.value.length ≤ MAX_HTTP_FIELD_VALUE)
    ⟨fun ⟨h₁, h₂, h₃, h₄, h₅, h₆, h₇⟩ => ⟨h₁, h₂, h₃, h₄, h₅, h₆, h₇⟩,
      fun ⟨h₁, h₂, h₃, h₄, h₅, h₆, h₇⟩ => ⟨h₁, h₂, h₃, h₄, h₅, h₆, h₇⟩⟩

/-- The parser can read the value, if there is one: without one the line is left out. -/
def Readable (l : HeaderLine) : Prop := l.value ≠ [] → Http.Readable l.name l.value

instance (l : HeaderLine) : Decidable l.Readable :=
  inferInstanceAs (Decidable (l.value ≠ [] → Http.Readable l.name l.value))

def Chunks (l : HeaderLine) : Prop := l.value ≠ [] ∧ (headerRole l.name).chunks l.value

instance : DecidablePred Chunks := fun l =>
  inferInstanceAs (Decidable (l.value ≠ [] ∧ (headerRole l.name).chunks l.value))

/-- The length of the body after a line. -/
def length (l : HeaderLine) (n : ℤ) : ℤ :=
  if l.value ≠ [] ∧ headerRole l.name = .contentLength then atoiValue l.value else n

/-- The header that is kept of a line. -/
def header (l : HeaderLine) : List HttpHeader :=
  if l.value = [] then [] else [nativeHeader l.name l.value]

end HeaderLine

section Bytes

theorem printable_cases {c : Byte} (h : isAsciiPrintable c = true) :
    isWhitespace c = false ∧ isCR c = false ∧ isLF c = false ∧ c ≠ 0 ∧ c.toNat < 0x80 := by
  have hall : ∀ c : Byte, isAsciiPrintable c = true → isWhitespace c = false ∧ isCR c = false ∧
      isLF c = false ∧ c ≠ 0 ∧ c.toNat < 0x80 := by decide +kernel
  exact hall c h

theorem whitespace_cases {c : Byte} (h : isWhitespace c = true) :
    isCR c = false ∧ isLF c = false ∧ isAsciiPrintable c = false ∧ c ≠ ASCII_COLON := by
  have hall : ∀ c : Byte, isWhitespace c = true → isCR c = false ∧ isLF c = false ∧
      isAsciiPrintable c = false ∧ c ≠ ASCII_COLON := by decide +kernel
  exact hall c h

theorem CR_cases : isCR 13 = true ∧ isLF 13 = false ∧ isWhitespace 13 = false ∧
    isAsciiPrintable 13 = false ∧ (13 : Byte) ≠ ASCII_COLON := by decide

theorem not_CR {c : Byte} (h : c ≠ 13) : isCR c = false := decide_eq_false h

theorem not_LF {c : Byte} (h : c ≠ 10) : isLF c = false := decide_eq_false h

end Bytes

section Fragments

variable {parser parser' : HttpRequestParser} {c : Byte} {data rest : List Byte}

theorem process_cons (h : parser.processByte c = .ok (true, parser')) (rest : List Byte) :
    processHttpFragment parser (c :: rest) = processHttpFragment parser' rest := by
  rw [processHttpFragment, h]
  rfl

theorem process_all (f : List Byte → HttpRequestParser) {text : List Byte}
    (hstep : ∀ done c, done ++ [c] <+: text →
      processByte (f done) c = .ok (true, f (done ++ [c]))) (rest : List Byte) :
    processHttpFragment (f []) (text ++ rest) = processHttpFragment (f text) rest := by
  have hall : ∀ more done, done ++ more = text →
      processHttpFragment (f done) (more ++ rest) = processHttpFragment (f text) rest := by
    intro more
    induction more with
    | nil =>
      intro done hdone
      rw [List.append_nil] at hdone
      rw [hdone, List.nil_append]
    | cons c more ih =>
      intro done hdone
      have hstarts : done ++ [c] <+: text := by
        rw [← hdone]
        exact ⟨more, by rw [List.append_assoc, List.singleton_append]⟩
      rw [List.cons_append, process_cons (hstep done c hstarts), ih (done ++ [c])]
      rw [← hdone, List.append_assoc, List.singleton_append]
  exact hall text [] (List.nil_append text)

theorem mem_of_concat_starts {done text : List Byte} (h : done ++ [c] <+: text) : c ∈ text :=
  h.subset (List.mem_append_right _ (List.mem_singleton_self c))

theorem length_lt_of_concat_starts {done text : List Byte} (h : done ++ [c] <+: text) :
    done.length < text.length := by
  have hle := h.length_le
  rw [List.length_append, List.length_singleton] at hle
  omega

end Fragments

section Header

def readLine (parser : HttpRequestParser) (l : HeaderLine) : HttpRequestParser :=
  if l.value = [] then { parser with headerName := [], headerValue := [] }
  else
    { append ((headerRole l.name).note parser l.value) (nativeHeader l.name l.value) with
      headerName := []
      headerValue := [] }

variable (parser : HttpRequestParser)

theorem process_name {name : List Byte}
    (hname : ∀ c ∈ name, isAsciiPrintable c ∧ c ≠ ASCII_COLON)
    (hfits : name.length ≤ MAX_HTTP_FIELD_NAME + 8) (rest : List Byte) :
    processHttpFragment { parser with state := .HEADER_FIELD_NAME, headerName := [] }
        (name ++ rest) =
      processHttpFragment { parser with state := .HEADER_FIELD_NAME, headerName := name } rest := by
  apply process_all fun done =>
    { parser with state := .HEADER_FIELD_NAME, headerName := done }
  intro done c hstarts
  obtain ⟨hprintable, hcolon⟩ := hname c (mem_of_concat_starts hstarts)
  obtain ⟨-, hCR, -, -, -⟩ := printable_cases hprintable
  have hlength := length_lt_of_concat_starts hstarts
  have hroom : done.length < MAX_HTTP_FIELD_NAME + 8 := by omega
  unfold processByte headerFieldName store
  simp only [hCR, hcolon, hprintable, hroom, if_true, if_false, Bool.false_eq_true]
  rfl

theorem process_gap {gap : List Byte} (hgap : ∀ c ∈ gap, isWhitespace c) (rest : List Byte) :
    processHttpFragment { parser with state := .HEADER_GAP1 } (gap ++ rest) =
      processHttpFragment { parser with state := .HEADER_GAP1 } rest := by
  apply process_all fun _ => { parser with state := .HEADER_GAP1 }
  intro done c hstarts
  unfold processByte headerGap1
  simp only [hgap c (mem_of_concat_starts hstarts), if_true]
  rfl

theorem process_value {c : Byte} {value : List Byte} (hvalue : ∀ d ∈ value, d ≠ 10 ∧ d ≠ 13)
    (hfits : value.length < MAX_HTTP_FIELD_VALUE) (rest : List Byte) :
    processHttpFragment { parser with state := .HEADER_FIELD_CONTENT, headerValue := [c] }
        (value ++ rest) =
      processHttpFragment
        { parser with state := .HEADER_FIELD_CONTENT, headerValue := c :: value } rest := by
  apply process_all fun done =>
    { parser with state := .HEADER_FIELD_CONTENT, headerValue := c :: done }
  intro done d hstarts
  obtain ⟨hLF, hCR⟩ := hvalue d (mem_of_concat_starts hstarts)
  have hlength := length_lt_of_concat_starts hstarts
  have hroom : (c :: done).length < MAX_HTTP_FIELD_VALUE := by
    rw [List.length_cons]
    omega
  unfold processByte headerFieldContent
  simp only [not_CR hCR, not_LF hLF, hroom, if_true, if_false, Bool.false_eq_true]
  rfl

/-- What a note says of the body. -/
theorem note_eq (role : HeaderRole) (value : List Byte) :
    ∃ contentType isWebSocket keepAlive, role.note parser value = { parser with
      isChunked := parser.isChunked || role.chunks value
      specifiedContentLength :=
        if role = .contentLength then atoiValue value else parser.specifiedContentLength
      contentType
      isWebSocket
      keepAlive } := by
  have hother : ∀ b : Bool, (b || false) = b := Bool.or_false
  cases role with
  | transferEncoding =>
    refine ⟨parser.contentType, parser.isWebSocket, parser.keepAlive, ?_⟩
    unfold HeaderRole.note HeaderRole.chunks
    by_cases h : IsStart value "chunked"
    · simp only [h, if_true, decide_true, Bool.and_self, Bool.or_true, reduceCtorEq, if_false]
    · simp only [h, if_false, decide_false, Bool.and_false, Bool.or_false, reduceCtorEq]
  | contentLength =>
    refine ⟨parser.contentType, parser.isWebSocket, parser.keepAlive, ?_⟩
    show ({ parser with specifiedContentLength := atoiValue value } : HttpRequestParser) =
      { parser with
        isChunked := parser.isChunked || false
        specifiedContentLength := atoiValue value }
    rw [hother]
  | contentType =>
    refine ⟨some (nativeText value), parser.isWebSocket, parser.keepAlive, ?_⟩
    show ({ parser with contentType := some (nativeText value) } : HttpRequestParser) =
      { parser with
        isChunked := parser.isChunked || false
        contentType := some (nativeText value) }
    rw [hother]
  | upgrade =>
    refine ⟨parser.contentType, parser.isWebSocket || decide (IsStart value "websocket"),
      parser.keepAlive, ?_⟩
    unfold HeaderRole.note HeaderRole.chunks
    by_cases h : IsStart value "websocket"
    · simp only [h, if_true, decide_true, decide_false, Bool.false_and, Bool.or_true, Bool.or_false,
        reduceCtorEq, if_false]
    · simp only [h, if_false, decide_false, Bool.false_and, Bool.or_false, reduceCtorEq]
  | connection =>
    refine ⟨parser.contentType, parser.isWebSocket,
      parser.keepAlive || decide (IsStart value "Keep-Alive"), ?_⟩
    unfold HeaderRole.note HeaderRole.chunks
    by_cases h : IsStart value "Keep-Alive"
    · simp only [h, if_true, decide_true, decide_false, Bool.false_and, Bool.or_true, Bool.or_false,
        reduceCtorEq, if_false]
    · simp only [h, if_false, decide_false, Bool.false_and, Bool.or_false, reduceCtorEq]
  | other =>
    refine ⟨parser.contentType, parser.isWebSocket, parser.keepAlive, ?_⟩
    show parser = { parser with isChunked := parser.isChunked || false }
    rw [hother]

theorem note_with (role : HeaderRole) (value : List Byte) (state : HttpState)
    (headerName headerValue : List Byte) :
    role.note { parser with state, headerName, headerValue } value =
      { role.note parser value with state, headerName, headerValue } := by
  cases role with
  | transferEncoding | upgrade | connection =>
    unfold HeaderRole.note
    dsimp only
    split
    · rfl
    · rfl
  | contentLength | contentType | other => rfl

/-- A name, the colon and the blanks. -/
theorem process_before_value {l : HeaderLine} (hl : l.Accepted) (rest : List Byte) :
    processHttpFragment { parser with state := .HEADER_FIELD_NAME, headerName := [] }
        (l.wire ++ rest) =
      processHttpFragment { parser with state := .HEADER_GAP1, headerName := l.name }
        (l.value ++ (13 :: 10 :: rest)) := by
  have hassoc : l.wire ++ rest =
      l.name ++ (ASCII_COLON :: (l.gap ++ (l.value ++ (13 :: 10 :: rest)))) := by
    unfold HeaderLine.wire CRLF
    simp only [List.append_assoc, List.cons_append, List.nil_append]
  have hcolon : processByte { parser with state := .HEADER_FIELD_NAME, headerName := l.name }
      ASCII_COLON = .ok (true, { parser with state := .HEADER_GAP1, headerName := l.name }) := by
    have hlength : ¬l.name.length = 0 := fun h => hl.name_ne (List.length_eq_zero_iff.mp h)
    have hCR : isCR ASCII_COLON = false := by decide
    unfold processByte headerFieldName
    simp only [hCR, hlength, if_true, if_false, Bool.false_eq_true]
    rfl
  rw [hassoc, process_name parser hl.name_printable hl.name_fits, process_cons hcolon]
  exact process_gap { parser with headerName := l.name } hl.gap_blank _

/-- A value is read up to the end of the line. -/
theorem process_to_CR {c : Byte} {value : List Byte} (hfirst : isAsciiPrintable c)
    (hvalue : ∀ d ∈ value, d ≠ 10 ∧ d ≠ 13) (hfits : value.length < MAX_HTTP_FIELD_VALUE)
    (rest : List Byte) :
    processHttpFragment { parser with state := .HEADER_GAP1 } (c :: value ++ rest) =
      processHttpFragment
        { parser with state := .HEADER_FIELD_CONTENT, headerValue := c :: value } rest := by
  obtain ⟨hblank, hCR, -, -, -⟩ := printable_cases hfirst
  have hstart : processByte { parser with state := .HEADER_GAP1 } c =
      .ok (true, { parser with state := .HEADER_FIELD_CONTENT, headerValue := [c] }) := by
    unfold processByte headerGap1
    simp only [hblank, hCR, hfirst, if_true, if_false, Bool.false_eq_true]
    rfl
  rw [List.cons_append, process_cons hstart, process_value parser hvalue hfits]

/-- The end of a line after a value. -/
theorem process_CRLF {name value : List Byte} (hname : ∀ c ∈ name, isAsciiPrintable c)
    (hfirst : ∃ c text, value = c :: text ∧ isAsciiPrintable c) (rest : List Byte) :
    processHttpFragment
        { parser with state := .HEADER_FIELD_CONTENT, headerName := name, headerValue := value }
        (13 :: 10 :: rest) =
      if Http.Readable name value then
        processHttpFragment
          { append ((headerRole name).note parser value) (nativeHeader name value) with
            state := .HEADER_FIELD_NAME
            headerName := []
            headerValue := [] } rest
      else .error .undefinedBehaviour := by
  have hadd := @addRequestHeader_eq
    { parser with state := .HEADER_CR_SEEN, headerName := name, headerValue := value } hname hfirst
  dsimp only at hadd
  rw [note_with] at hadd
  rw [processHttpFragment]
  unfold processByte headerFieldContent
  simp only [CR_cases, if_true]
  rw [hadd]
  by_cases hreadable : Http.Readable name value
  · rw [if_pos hreadable, if_pos hreadable]
    rfl
  · rw [if_neg hreadable, if_neg hreadable]
    rfl

theorem process_line {parser : HttpRequestParser} {l : HeaderLine} (hl : l.Accepted)
    (hstate : parser.state = .HEADER_FIELD_NAME) (hname : parser.headerName = [])
    (rest : List Byte) :
    processHttpFragment parser (l.wire ++ rest) =
      if l.Readable then processHttpFragment (readLine parser l) rest
      else .error .undefinedBehaviour := by
  have hstart : parser = { parser with state := .HEADER_FIELD_NAME, headerName := [] } := by
    cases parser
    simp only at hstate hname
    rw [hstate, hname]
  have hbefore := process_before_value parser hl rest
  rw [← hstart] at hbefore
  rw [hbefore]
  cases hvalue : l.value with
  | nil =>
    have hreadable : l.Readable := fun h => absurd hvalue h
    have hread : readLine parser l =
        { parser with state := .HEADER_FIELD_NAME, headerName := [], headerValue := [] } := by
      unfold readLine
      rw [if_pos hvalue, ← hstate]
    rw [if_pos hreadable, hread]
    rfl
  | cons c value =>
    have hfirst : isAsciiPrintable c := hl.value_first c (by rw [hvalue]; rfl)
    have hline : ∀ d ∈ value, d ≠ 10 ∧ d ≠ 13 := by
      intro d hd
      apply hl.value_line
      rw [hvalue]
      exact List.mem_cons_of_mem _ hd
    have hfits : value.length < MAX_HTTP_FIELD_VALUE := by
      have h := hl.value_fits
      rw [hvalue, List.length_cons] at h
      omega
    have hne : l.value ≠ [] := by
      rw [hvalue]
      exact List.cons_ne_nil c value
    have hread : readLine parser l =
        { append ((headerRole l.name).note parser l.value) (nativeHeader l.name l.value) with
          state := .HEADER_FIELD_NAME
          headerName := []
          headerValue := [] } := by
      unfold readLine
      have hkept : ((headerRole l.name).note parser l.value).state = .HEADER_FIELD_NAME := by
        obtain ⟨_, _, _, hnote⟩ := note_eq parser (headerRole l.name) l.value
        rw [hnote, ← hstate]
      rw [if_neg hne, append, hkept]
    have hiff : l.Readable ↔ Http.Readable l.name (c :: value) := by
      unfold HeaderLine.Readable
      rw [← hvalue]
      exact ⟨fun h => h hne, fun h _ => h⟩
    rw [process_to_CR { parser with headerName := l.name } hfirst hline hfits, hread,
      process_CRLF parser (fun d hd => (hl.name_printable d hd).1) ⟨c, value, rfl, hfirst⟩, hvalue]
    simp only [hiff]

theorem readLine_eq (l : HeaderLine) :
    ∃ contentType isWebSocket keepAlive, readLine parser l = { parser with
      headerName := []
      headerValue := []
      isChunked := parser.isChunked || l.Chunks
      specifiedContentLength := l.length parser.specifiedContentLength
      headerChain := parser.headerChain ++ l.header
      contentType
      isWebSocket
      keepAlive } := by
  unfold readLine HeaderLine.Chunks HeaderLine.length HeaderLine.header
  by_cases hvalue : l.value = []
  · refine ⟨parser.contentType, parser.isWebSocket, parser.keepAlive, ?_⟩
    simp only [hvalue, ne_eq, not_true_eq_false, false_and, decide_false, Bool.or_false, if_true,
      if_false, List.append_nil]
  · obtain ⟨contentType, isWebSocket, keepAlive, hnote⟩ :=
      note_eq parser (headerRole l.name) l.value
    refine ⟨contentType, isWebSocket, keepAlive, ?_⟩
    rw [hnote]
    simp only [append, hvalue, ne_eq, not_false_eq_true, true_and, if_false, Bool.decide_eq_true]

def lengthAfter (lines : List HeaderLine) (n : ℤ) : ℤ := lines.foldl (fun n l => l.length n) n

theorem readLines_eq {parser : HttpRequestParser} (hname : parser.headerName = [])
    (lines : List HeaderLine) :
    ∃ contentType isWebSocket keepAlive headerValue, lines.foldl readLine parser = { parser with
      headerValue
      isChunked := parser.isChunked || lines.any fun l => l.Chunks
      specifiedContentLength := lengthAfter lines parser.specifiedContentLength
      headerChain := parser.headerChain ++ lines.flatMap HeaderLine.header
      contentType
      isWebSocket
      keepAlive } := by
  induction lines generalizing parser with
  | nil =>
    refine ⟨parser.contentType, parser.isWebSocket, parser.keepAlive, parser.headerValue, ?_⟩
    rw [List.any_nil, Bool.or_false, List.flatMap_nil, List.append_nil]
    rfl
  | cons l lines ih =>
    obtain ⟨_, _, _, hline⟩ := readLine_eq parser l
    have hempty : (readLine parser l).headerName = [] := by rw [hline]
    obtain ⟨contentType, isWebSocket, keepAlive, headerValue, hlines⟩ := ih hempty
    refine ⟨contentType, isWebSocket, keepAlive, headerValue, ?_⟩
    rw [List.foldl_cons, hlines, hline, List.any_cons, List.flatMap_cons, ← Bool.or_assoc,
      ← List.append_assoc, hname]
    rfl

theorem process_lines {parser : HttpRequestParser} {lines : List HeaderLine}
    (hlines : ∀ l ∈ lines, l.Accepted) (hstate : parser.state = .HEADER_FIELD_NAME)
    (hname : parser.headerName = []) (rest : List Byte) :
    processHttpFragment parser (lines.flatMap HeaderLine.wire ++ rest) =
      if ∀ l ∈ lines, l.Readable then processHttpFragment (lines.foldl readLine parser) rest
      else .error .undefinedBehaviour := by
  induction lines generalizing parser with
  | nil =>
    rw [if_pos (List.forall_mem_nil _)]
    rfl
  | cons l lines ih =>
    obtain ⟨hl, hmore⟩ := List.forall_mem_cons.mp hlines
    rw [List.flatMap_cons, List.append_assoc, process_line hl hstate hname]
    by_cases hreadable : l.Readable
    · obtain ⟨_, _, _, hline⟩ := readLine_eq parser l
      rw [if_pos hreadable, ih hmore (by rw [hline]; exact hstate) (by rw [hline])]
      simp only [List.forall_mem_cons, hreadable, true_and, List.foldl_cons]
    · rw [if_neg hreadable, if_neg fun h => hreadable (List.forall_mem_cons.mp h).1]

/-- What the parser does when the header has ended. -/
def startBody (parser : HttpRequestParser) : HttpRequestParser :=
  if parser.isChunked then
    { parser with
      state := .READING_CHUNK_SIZE
      chunkSize := 0
      specifiedContentLength := 0
      content := [] }
  else if parser.specifiedContentLength ≤ 0 then parser.resetParserAndEnqueue
  else
    { parser with
      state := .READING_FIXED_BODY
      content := []
      remainingContentLength := parser.specifiedContentLength }

theorem process_endOfHeader {parser : HttpRequestParser}
    (hstate : parser.state = .HEADER_FIELD_NAME) (hname : parser.headerName = [])
    (rest : List Byte) :
    processHttpFragment parser (CRLF ++ rest) = processHttpFragment (startBody parser) rest := by
  have hCR : parser.processByte 13 = .ok (true, { parser with state := .END_CR_SEEN }) := by
    unfold processByte headerFieldName
    rw [hstate]
    simp only [CR_cases, hname, List.length_nil, if_true]
    rfl
  have hLF : processByte { parser with state := .END_CR_SEEN } 10 =
      .ok (true, startBody parser) := by
    have hten : isLF 10 = true := rfl
    unfold processByte endCRSeen startBody
    simp only [hten, if_true]
    split
    · rfl
    · split
      · rfl
      · rfl
  unfold CRLF
  rw [List.cons_append, process_cons hCR, List.cons_append, process_cons hLF, List.nil_append]

end Header

end Http
end ZoweCommon
