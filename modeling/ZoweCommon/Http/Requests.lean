import ZoweCommon.Http.BodyFraming

/-! Requests as they are sent, and what the parser queues of one. -/
namespace ZoweCommon
namespace Http

open HttpRequestParser

/-- A part of a body with its size; the last one is empty. -/
structure Chunk where
  size : List Byte
  extension : List Byte
  data : List Byte

namespace Chunk

def wire (c : Chunk) : List Byte := c.size ++ (c.extension ++ (CRLF ++ (c.data ++ CRLF)))

structure Accepted (c : Chunk) : Prop where
  size_ne : c.size ≠ []
  size_digits : ∀ d ∈ c.size, Hexadecimal.isDigit d
  size_value : Hexadecimal.value c.size = c.data.length
  extension : c.extension = [] ∨ ∃ text, c.extension = 59 :: text ∧ 13 ∉ text

end Chunk

inductive Body
  | plain (bytes : List Byte)
  | chunks (chunks : List Chunk) (last : Chunk)

namespace Body

def wire : Body → List Byte
  | plain bytes => bytes
  | chunks cs last => cs.flatMap Chunk.wire ++ last.wire

def bytes : Body → List Byte
  | plain bytes => bytes
  | chunks cs _ => cs.flatMap Chunk.data

def framing : Body → BodyFraming
  | plain bytes => .bytes bytes.length
  | chunks _ _ => .chunked

def Accepted : Body → Prop
  | plain _ => True
  | chunks cs last => (∀ c ∈ cs, c.Accepted ∧ c.data ≠ []) ∧ last.Accepted ∧ last.data = []

end Body

structure Request where
  method : List Byte
  gap1 : List Byte
  uri : List Byte
  gap2 : List Byte
  version : List Byte
  lines : List HeaderLine
  body : Body

def methods : List (List Byte) :=
  ["GET", "POST", "PUT", "HEAD", "DELETE", "TRACE", "OPTIONS", "CONNECT"].map CString.ascii

namespace Request

def wire (r : Request) : List Byte :=
  r.method ++ (r.gap1 ++ (r.uri ++ (r.gap2 ++ (r.version ++ (CRLF ++
    (headerWire r.lines ++ r.body.wire))))))

/-- The grammar of requests. -/
structure Accepted (r : Request) : Prop where
  method : r.method ∈ methods
  gap1_ne : r.gap1 ≠ []
  gap1 : ∀ c ∈ r.gap1, isWhitespace c
  uri_ne : r.uri ≠ []
  uri : ∀ c ∈ r.uri, c ≠ 10 ∧ c ≠ 13 ∧ isWhitespace c = false
  gap2_ne : r.gap2 ≠ []
  gap2 : ∀ c ∈ r.gap2, isWhitespace c
  version_ne : r.version ≠ []
  version_first : ∀ c ∈ r.version.head?, c ≠ 10 ∧ c ≠ 13 ∧ isWhitespace c = false
  version : ∀ c ∈ r.version.tail, isAsciiPrintable c
  lines : ∀ l ∈ r.lines, l.Accepted
  announced : announced r.lines = some r.body.framing
  body : r.body.Accepted

/-- The bytes for which there is room. -/
structure Fits (r : Request) : Prop where
  uri : r.uri.length ≤ MAX_HTTP_URI + 8
  version : r.version.length ≤ MAX_HTTP_VERSION + 8
  body : r.body.bytes.length < 2 ^ 31

/-- A queued request is one that was sent. -/
structure Delivers (r : Request) (request : HttpRequest) : Prop where
  method : request.method = r.method
  uri : request.uri = r.uri
  headers : request.headerChain.map (fun h => (h.name, h.value)) =
    r.lines.map fun l => (l.name, l.value)
  contentBody : request.contentBody.getD [] = r.body.bytes

end Request

/-- The parser has read all of a request, or nothing. -/
structure Ready (parser : HttpRequestParser) : Prop where
  state : parser.state = .REQUEST_METHOD
  methodNameLength : parser.methodNameLength = 0
  methodName_length : parser.methodName.length = MAX_HTTP_METHOD_NAME + 8
  methodName : ∀ c ∈ parser.methodName, c = 0 ∨ isAsciiPrintable c
  isChunked : parser.isChunked = false
  specifiedContentLength : parser.specifiedContentLength = -1
  headerChain : parser.headerChain = []

section RequestLine

variable (parser : HttpRequestParser)

theorem process_methodName {name : List Byte} (hname : ∀ c ∈ name, isAsciiPrintable c)
    (hfits : name.length ≤ MAX_HTTP_METHOD_NAME) (hbuffer : name.length ≤ parser.methodName.length)
    (rest : List Byte) :
    processHttpFragment { parser with state := .REQUEST_METHOD, methodNameLength := 0 }
        (name ++ rest) =
      processHttpFragment { parser with
        state := .REQUEST_METHOD
        methodNameLength := name.length
        methodName := name ++ parser.methodName.drop name.length } rest := by
  apply process_all fun done => { parser with
    state := .REQUEST_METHOD
    methodNameLength := done.length
    methodName := done ++ parser.methodName.drop done.length }
  intro done c hstarts
  obtain ⟨hblank, -, -, -, -⟩ := printable_cases (hname c (mem_of_concat_starts hstarts))
  have hlength := length_lt_of_concat_starts hstarts
  have hroom : ¬MAX_HTTP_METHOD_NAME ≤ done.length := by omega
  have hset : (done ++ parser.methodName.drop done.length).set done.length c =
      done ++ [c] ++ parser.methodName.drop (done ++ [c]).length := by
    rw [List.set_append_right _ _ (le_refl _), Nat.sub_self, List.drop_eq_getElem_cons (by omega),
      List.set_cons_zero, List.append_assoc, List.singleton_append, List.length_append,
      List.length_singleton]
  unfold processByte readingMethod
  simp only [hblank, hname c (mem_of_concat_starts hstarts), hroom, hset, if_true, if_false,
    Bool.false_eq_true, List.length_append, List.length_singleton]
  rfl

/-- Every method begins as itself. -/
theorem parserMethodIsValid_eq {parser : HttpRequestParser} {method leftover : List Byte}
    (hname : parser.methodName = method ++ leftover) (hmethod : method ∈ methods)
    (hleftover : ∀ c ∈ leftover, c = 0 ∨ isAsciiPrintable c) :
    parser.parserMethodIsValid = .ok true := by
  have hprintable : ∀ c ∈ method, isAsciiPrintable c := by
    have hall : ∀ m ∈ methods, ∀ c ∈ m, isAsciiPrintable c := by decide
    exact hall method hmethod
  have hnative : method.map nativeChar ∈ validMethods := by
    have hall : ∀ m ∈ methods, m.map nativeChar ∈ validMethods := by decide +kernel
    exact hall method hmethod
  have hbytes : (CString.ofBytes (method ++ leftover)).bytes =
      method ++ leftover.takeWhile (· ≠ 0) := by
    apply List.takeWhile_append_of_pos
    intro c hc
    obtain ⟨-, -, -, hzero, -⟩ := printable_cases (hprintable c hc)
    simpa using hzero
  have hall : ∀ c ∈ method ++ leftover.takeWhile (· ≠ 0), isAsciiPrintable c := by
    intro c hc
    rcases List.mem_append.mp hc with hc | hc
    · exact hprintable c hc
    · have hzero : c ≠ 0 := by simpa using List.mem_takeWhile_imp hc
      exact (hleftover c ((List.takeWhile_prefix _).subset hc)).resolve_left hzero
  have hnoNul : NoNul (method ++ leftover.takeWhile (· ≠ 0)) := by
    intro c hc
    obtain ⟨-, -, -, hzero, -⟩ := printable_cases (hall c hc)
    exact hzero
  have hstarts : method.map nativeChar <+: nativeText (method ++ leftover.takeWhile (· ≠ 0)) := by
    rw [nativeText_of_noNul hnoNul, List.map_append]
    exact List.prefix_append _ _
  unfold parserMethodIsValid
  rw [hname, hbytes, destructivelyUnasciify_eq, if_pos (inTable_of_printable hall), Exec.ok_bind]
  have hany : (validMethods.any fun s =>
      s.isPrefixOf (nativeText (method ++ leftover.takeWhile (· ≠ 0)))) = true := by
    apply List.any_eq_true.mpr
    exact ⟨_, hnative, List.isPrefixOf_iff_prefix.mpr hstarts⟩
  rw [hany]
  rfl

theorem process_uri {uri : List Byte} (huri : ∀ c ∈ uri, c ≠ 10 ∧ c ≠ 13 ∧ isWhitespace c = false)
    (hne : uri ≠ []) (hfits : uri.length ≤ MAX_HTTP_URI + 8) (rest : List Byte) :
    processHttpFragment { parser with state := .REQUEST_GAP1 } (uri ++ rest) =
      processHttpFragment { parser with state := .REQUEST_URI, uri } rest := by
  cases uri with
  | nil => exact absurd rfl hne
  | cons first uri =>
    obtain ⟨⟨-, -, hblank⟩, hmore⟩ := List.forall_mem_cons.mp huri
    rw [List.length_cons] at hfits
    have hfirst : processByte { parser with state := .REQUEST_GAP1 } first =
        .ok (true, { parser with state := .REQUEST_URI, uri := [first] }) := by
      unfold processByte gap1
      simp only [hblank, Bool.not_false, if_true]
      rfl
    rw [List.cons_append, process_cons hfirst]
    apply process_all fun done => { parser with state := .REQUEST_URI, uri := first :: done }
    intro done c hstarts
    obtain ⟨hLF, hCR, hblank⟩ := hmore c (mem_of_concat_starts hstarts)
    have hlength := length_lt_of_concat_starts hstarts
    have hroom : (first :: done).length < MAX_HTTP_URI + 8 := by
      rw [List.length_cons]
      omega
    unfold processByte readingURI store
    simp only [not_CR hCR, not_LF hLF, hblank, hroom, Bool.or_false, if_true, if_false,
      Bool.false_eq_true]
    rfl

theorem process_version {version : List Byte} (hne : version ≠ [])
    (hfirst : ∀ c ∈ version.head?, c ≠ 10 ∧ c ≠ 13 ∧ isWhitespace c = false)
    (hversion : ∀ c ∈ version.tail, isAsciiPrintable c)
    (hfits : version.length ≤ MAX_HTTP_VERSION + 8) (rest : List Byte) :
    processHttpFragment { parser with state := .REQUEST_GAP2 } (version ++ rest) =
      processHttpFragment { parser with state := .REQUEST_VERSION, version } rest := by
  cases version with
  | nil => exact absurd rfl hne
  | cons first version =>
    obtain ⟨hLF, hCR, hblank⟩ := hfirst first rfl
    rw [List.length_cons] at hfits
    have hfirst : processByte { parser with state := .REQUEST_GAP2 } first =
        .ok (true, { parser with state := .REQUEST_VERSION, version := [first] }) := by
      unfold processByte gap2
      simp only [not_CR hCR, not_LF hLF, hblank, Bool.or_false, if_false, Bool.false_eq_true]
      rfl
    rw [List.cons_append, process_cons hfirst]
    apply process_all fun done => { parser with state := .REQUEST_VERSION, version := first :: done }
    intro done c hstarts
    have hprintable := hversion c (mem_of_concat_starts hstarts)
    obtain ⟨-, hCR, -, -, -⟩ := printable_cases hprintable
    have hlength := length_lt_of_concat_starts hstarts
    have hroom : (first :: done).length < MAX_HTTP_VERSION + 8 := by
      rw [List.length_cons]
      omega
    unfold processByte readingVersion store
    simp only [hCR, hprintable, hroom, if_true, if_false, Bool.false_eq_true]
    rfl

theorem process_blanks {gap : List Byte} (hgap : ∀ c ∈ gap, isWhitespace c) (rest : List Byte) :
    processHttpFragment { parser with state := .REQUEST_GAP1 } (gap ++ rest) =
        processHttpFragment { parser with state := .REQUEST_GAP1 } rest ∧
      processHttpFragment { parser with state := .REQUEST_GAP2 } (gap ++ rest) =
        processHttpFragment { parser with state := .REQUEST_GAP2 } rest := by
  constructor
  · apply process_all fun _ => { parser with state := .REQUEST_GAP1 }
    intro done c hstarts
    have hblank := hgap c (mem_of_concat_starts hstarts)
    obtain ⟨hCR, hLF, -, -⟩ := whitespace_cases hblank
    unfold processByte gap1
    simp only [hblank, hCR, hLF, Bool.not_true, Bool.or_false, if_false, Bool.false_eq_true]
    rfl
  · apply process_all fun _ => { parser with state := .REQUEST_GAP2 }
    intro done c hstarts
    have hblank := hgap c (mem_of_concat_starts hstarts)
    obtain ⟨hCR, hLF, -, -⟩ := whitespace_cases hblank
    unfold processByte gap2
    simp only [hblank, hCR, hLF, Bool.or_false, if_true, if_false, Bool.false_eq_true]
    rfl

def afterLine (r : Request) : HttpRequestParser :=
  { parser with
    state := .HEADER_FIELD_NAME
    methodNameLength := r.method.length
    methodName := r.method ++ parser.methodName.drop r.method.length
    uri := r.uri
    version := r.version
    headerName := [] }

theorem methods_cases {method : List Byte} (h : method ∈ methods) :
    (∀ c ∈ method, isAsciiPrintable c) ∧ 0 < method.length ∧ method.length ≤ 7 := by
  have hall : ∀ m ∈ methods, (∀ c ∈ m, isAsciiPrintable c) ∧ 0 < m.length ∧ m.length ≤ 7 := by
    decide
  exact hall method h

theorem process_method {parser : HttpRequestParser} {method : List Byte} {blank : Byte}
    (hready : Ready parser) (hmethod : method ∈ methods) (hblank : isWhitespace blank)
    (rest : List Byte) :
    processHttpFragment parser (method ++ blank :: rest) =
      processHttpFragment { parser with
        state := .REQUEST_GAP1
        methodNameLength := method.length
        methodName := method ++ parser.methodName.drop method.length } rest := by
  obtain ⟨hprintable, hpos, hle⟩ := methods_cases hmethod
  have hstart : parser = { parser with state := .REQUEST_METHOD, methodNameLength := 0 } := by
    have hstate := hready.state
    have hlength := hready.methodNameLength
    cases parser
    simp only at hstate hlength
    rw [hstate, hlength]
  have hname := process_methodName parser hprintable (hle.trans (by decide))
    (hle.trans (by rw [hready.methodName_length]; decide)) (blank :: rest)
  rw [← hstart] at hname
  have hvalid : parserMethodIsValid { parser with
      state := .REQUEST_METHOD
      methodNameLength := method.length
      methodName := method ++ parser.methodName.drop method.length } = .ok true :=
    parserMethodIsValid_eq rfl hmethod fun c hc => hready.methodName c (List.mem_of_mem_drop hc)
  have hstep : processByte { parser with
        state := .REQUEST_METHOD
        methodNameLength := method.length
        methodName := method ++ parser.methodName.drop method.length } blank =
      .ok (true, { parser with
        state := .REQUEST_GAP1
        methodNameLength := method.length
        methodName := method ++ parser.methodName.drop method.length }) := by
    have hlong : ¬method.length < 1 := by omega
    unfold processByte readingMethod
    simp only [hblank, hlong, hvalid, Exec.ok_bind, if_true, if_false]
    rfl
  rw [hname, process_cons hstep]

theorem process_requestLine {parser : HttpRequestParser} {r : Request} (hready : Ready parser)
    (hr : r.Accepted) (hfits : r.Fits) (rest : List Byte) :
    processHttpFragment parser (r.method ++ (r.gap1 ++ (r.uri ++ (r.gap2 ++ (r.version ++
        (CRLF ++ rest)))))) =
      processHttpFragment (afterLine parser r) rest := by
  obtain ⟨blank₁, gap₁, hgap₁⟩ := List.exists_cons_of_ne_nil hr.gap1_ne
  obtain ⟨blank₂, gap₂, hgap₂⟩ := List.exists_cons_of_ne_nil hr.gap2_ne
  have hblanks₁ := hr.gap1
  have hblanks₂ := hr.gap2
  rw [hgap₁] at hblanks₁ ⊢
  rw [hgap₂] at hblanks₂ ⊢
  obtain ⟨hblank₁, hmore₁⟩ := List.forall_mem_cons.mp hblanks₁
  obtain ⟨hblank₂, hmore₂⟩ := List.forall_mem_cons.mp hblanks₂
  have hafterURI : ∀ p : HttpRequestParser,
      processByte { p with state := .REQUEST_URI } blank₂ =
        .ok (true, { p with state := .REQUEST_GAP2 }) := by
    intro p
    obtain ⟨hCR, hLF, -, -⟩ := whitespace_cases hblank₂
    unfold processByte readingURI
    simp only [hblank₂, hCR, hLF, Bool.or_false, if_true, if_false, Bool.false_eq_true]
    rfl
  have hend : ∀ p : HttpRequestParser,
      processHttpFragment { p with state := .REQUEST_VERSION } (CRLF ++ rest) =
        processHttpFragment { p with state := .HEADER_FIELD_NAME, headerName := [] } rest :=
    fun _ => rfl
  rw [List.cons_append, process_method hready hr.method hblank₁]
  let named : HttpRequestParser := { parser with
    methodNameLength := r.method.length
    methodName := r.method ++ parser.methodName.drop r.method.length }
  let located : HttpRequestParser := { named with uri := r.uri }
  let versioned : HttpRequestParser := { located with version := r.version }
  calc processHttpFragment { named with state := .REQUEST_GAP1 }
        (gap₁ ++ (r.uri ++ (blank₂ :: gap₂ ++ (r.version ++ (CRLF ++ rest)))))
      = processHttpFragment { named with state := .REQUEST_GAP1 }
          (r.uri ++ (blank₂ :: gap₂ ++ (r.version ++ (CRLF ++ rest)))) :=
        (process_blanks named hmore₁ _).1
    _ = processHttpFragment { located with state := .REQUEST_URI }
          (blank₂ :: gap₂ ++ (r.version ++ (CRLF ++ rest))) :=
        process_uri named hr.uri hr.uri_ne hfits.uri _
    _ = processHttpFragment { located with state := .REQUEST_GAP2 }
          (gap₂ ++ (r.version ++ (CRLF ++ rest))) := process_cons (hafterURI located) _
    _ = processHttpFragment { located with state := .REQUEST_GAP2 }
          (r.version ++ (CRLF ++ rest)) := (process_blanks located hmore₂ _).2
    _ = processHttpFragment { versioned with state := .REQUEST_VERSION } (CRLF ++ rest) :=
        process_version located hr.version_ne hr.version_first hr.version hfits.version _
    _ = processHttpFragment (afterLine parser r) rest := hend versioned

end RequestLine

section BodyBytes

variable (parser : HttpRequestParser)

end BodyBytes

section Whole

variable {parser : HttpRequestParser} {r : Request}

end Whole

end Http
end ZoweCommon
