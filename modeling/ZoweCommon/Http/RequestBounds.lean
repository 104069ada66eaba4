import Mathlib.Algebra.Group.Nat.Defs
import ZoweCommon.Http.HeaderText

/-! Where the server stores what clients send. -/
namespace ZoweCommon
namespace Http
namespace RequestStorage

open HttpRequestParser (ASCII_COLON)

/-- What comes of a read outside of a table, and of a number that is no `int`. -/
structure Unspecified where
  native : List Byte → List Byte
  methodIsValid : HttpRequestParser → Bool
  isChunked : HttpRequestParser → Bool
  isWebSocket : HttpRequestParser → Bool
  keepAlive : HttpRequestParser → Bool
  specifiedContentLength : HttpRequestParser → BitVec 32
  contentType : HttpRequestParser → Option (List Byte)

/-- The parser, and the size of the storage that `content` points to. -/
structure Storage where
  parser : HttpRequestParser := makeHttpRequestParser
  contentSize : ℤ := 0
  deriving DecidableEq

/-- The size of what is given out: rounded up, as an `int`. The heap is taken to have room for it. -/
def SLHAlloc (size : ℤ) : ℤ := ((size + 7) / 8 * 8).bmod (2 ^ 32)

/-- Only what is noted of a header can be left open by what is read of it. -/
def addRequestHeader (unspecified : Unspecified) (parser : HttpRequestParser) : HttpRequestParser :=
  match parser.addRequestHeader with
  | .ok parser => parser
  | .error _ =>
    let newHeader : HttpHeader :=
      { name := parser.headerName
        nativeName := unspecified.native parser.headerName
        value := parser.headerValue
        nativeValue := unspecified.native parser.headerValue }
    { parser with
      isChunked := unspecified.isChunked parser
      isWebSocket := unspecified.isWebSocket parser
      keepAlive := unspecified.keepAlive parser
      specifiedContentLength := (unspecified.specifiedContentLength parser).toInt
      contentType := unspecified.contentType parser
      headerChain := parser.headerChain ++ [newHeader] }

/-- The index of the next byte of the body. -/
def contentIndex (parser : HttpRequestParser) : ℤ :=
  (parser.specifiedContentLength - parser.remainingContentLength).bmod (2 ^ 32)

def contentLengthSum (parser : HttpRequestParser) : ℤ :=
  (parser.specifiedContentLength + parser.chunkSize).bmod (2 ^ 32)

/-- Every index is one of its array. -/
def Fits (stores : List (ℤ × ℤ)) : Prop := ∀ store ∈ stores, 0 ≤ store.1 ∧ store.1 < store.2

instance (stores : List (ℤ × ℤ)) : Decidable (Fits stores) :=
  inferInstanceAs (Decidable (∀ store ∈ stores, _))

namespace Storage

variable (unspecified : Unspecified) (s : Storage) (c : Byte)

/-- The indices at which something is stored, each with the size of its array. Of the bytes that are
copied into the storage for another chunk it is the last. -/
def stores : List (ℤ × ℤ) :=
  let parser := s.parser
  match parser.state with
  | .REQUEST_METHOD =>
    if isAsciiPrintable c ∧ parser.methodNameLength < MAX_HTTP_METHOD_NAME then
      [(parser.methodNameLength, MAX_HTTP_METHOD_NAME + 8)]
    else []
  | .REQUEST_GAP1 => if isWhitespace c then [] else [(0, MAX_HTTP_URI + 8)]
  | .REQUEST_URI =>
    if isCR c ∨ isLF c ∨ isWhitespace c then [] else [(parser.uri.length, MAX_HTTP_URI + 8)]
  | .REQUEST_GAP2 =>
    if isCR c ∨ isLF c ∨ isWhitespace c then [] else [(0, MAX_HTTP_VERSION + 8)]
  | .REQUEST_VERSION =>
    if isAsciiPrintable c then [(parser.version.length, MAX_HTTP_VERSION + 8)] else []
  | .HEADER_FIELD_NAME =>
    if isAsciiPrintable c ∧ c ≠ ASCII_COLON then
      [(parser.headerName.length, MAX_HTTP_FIELD_NAME + 8)]
    else []
  | .HEADER_GAP1 => if isAsciiPrintable c then [(0, MAX_HTTP_FIELD_VALUE + 8)] else []
  | .HEADER_FIELD_CONTENT =>
    if ¬isCR c ∧ ¬isLF c ∧ parser.headerValue.length < MAX_HTTP_FIELD_VALUE then
      [(parser.headerValue.length, MAX_HTTP_FIELD_VALUE + 8)]
    else []
  | .READING_FIXED_BODY => [(contentIndex parser, s.contentSize)]
  | .CHUNK_SIZE_CR_SEEN =>
    if isLF c ∧ parser.chunkSize ≠ 0 ∧ parser.specifiedContentLength ≠ 0 then
      [(parser.specifiedContentLength - 1, SLHAlloc (contentLengthSum parser))]
    else []
  | .READING_CHUNK_DATA =>
    if 0 < parser.remainingContentLength then [(contentIndex parser, s.contentSize)] else []
  | _ => []

def next (step : Exec (Bool × HttpRequestParser)) : Exec (Bool × Storage) := do
  let (goesOn, parser) ← step
  return (goesOn, { s with parser })

def readingMethod : Exec (Bool × HttpRequestParser) :=
  match s.parser.readingMethod c with
  | .ok result => return result
  | .error _ =>
    if unspecified.methodIsValid s.parser then
      HttpRequestParser.accept { s.parser with state := .REQUEST_GAP1 }
    else s.parser.reject HTTP_STATUS_BAD_REQUEST

def headerFieldContent : Exec (Bool × HttpRequestParser) :=
  if isCR c then
    (addRequestHeader unspecified { s.parser with state := .HEADER_CR_SEEN }).accept
  else s.parser.headerFieldContent c

def endCRSeen : Exec (Bool × Storage) := do
  let (goesOn, parser) ← s.parser.endCRSeen c
  let contentSize :=
    if parser.state = .READING_FIXED_BODY then SLHAlloc parser.specifiedContentLength
    else s.contentSize
  return (goesOn, { parser, contentSize })

/-- The body so far is copied into the storage for it and the chunk. -/
def chunkSizeCRSeen : Exec (Bool × Storage) :=
  if isLF c ∧ s.parser.chunkSize ≠ 0 then
    return (true,
      { parser := { s.parser with
          specifiedContentLength := contentLengthSum s.parser
          remainingContentLength := s.parser.chunkSize
          state := .READING_CHUNK_DATA }
        contentSize := SLHAlloc (contentLengthSum s.parser) })
  else s.next (s.parser.chunkSizeCRSeen c)

/-- What a byte does besides being stored. -/
def advance : Exec (Bool × Storage) :=
  match s.parser.state with
  | .REQUEST_METHOD => s.next (s.readingMethod unspecified c)
  | .HEADER_FIELD_CONTENT => s.next (s.headerFieldContent unspecified c)
  | .END_CR_SEEN => s.endCRSeen c
  | .CHUNK_SIZE_CR_SEEN => s.chunkSizeCRSeen c
  | _ => s.next (s.parser.processByte c)

/-- The loop body of `processHttpFragment`. -/
def processByte : Exec (Bool × Storage) :=
  if Fits (s.stores c) then s.advance unspecified c
  else throw .undefinedBehaviour

end Storage

/-- Whether the parser goes on after the fragment, and the parser. -/
def processHttpFragment (unspecified : Unspecified) (s : Storage) :
    List Byte → Exec (Bool × Storage)
  | [] => return (true, s)
  | c :: data => do
    let (goesOn, s) ← s.processByte unspecified c
    if goesOn then processHttpFragment unspecified s data else return (false, s)

/-- The fragments that a connection receives, also after one that was not accepted. -/
def receive (unspecified : Unspecified) (s : Storage) :
    List (List Byte) → Exec (List Bool × Storage)
  | [] => return ([], s)
  | fragment :: fragments => do
    let (status, s) ← processHttpFragment unspecified s fragment
    let (statuses, s) ← receive unspecified s fragments
    return (status :: statuses, s)

def HasStorage (length : ℤ) : Prop := 0 ≤ length ∧ length + 7 < 2 ^ 31

instance (length : ℤ) : Decidable (HasStorage length) := inferInstanceAs (Decidable (_ ∧ _))

def BodyInv (s : Storage) : Prop :=
  match s.parser.state with
  | .READING_FIXED_BODY =>
    s.contentSize = SLHAlloc s.parser.specifiedContentLength ∧
      0 < s.parser.remainingContentLength ∧
        s.parser.remainingContentLength ≤ s.parser.specifiedContentLength
  | .READING_CHUNK_DATA =>
    s.contentSize = SLHAlloc s.parser.specifiedContentLength ∧
      (0 ≤ s.parser.specifiedContentLength →
        s.parser.remainingContentLength ≤ s.parser.specifiedContentLength) ∧
        (0 < s.parser.remainingContentLength ∨ HasStorage s.parser.specifiedContentLength)
  | .READING_CHUNK_SIZE | .READING_CHUNK_EXTENSION | .CHUNK_SIZE_CR_SEEN | .CHUNK_DATA_CR_SEEN =>
    HasStorage s.parser.specifiedContentLength
  | _ => True

/-- What every parser keeps to. -/
structure Inv (s : Storage) : Prop where
  methodNameLength : s.parser.methodNameLength ≤ MAX_HTTP_METHOD_NAME
  headerValue : s.parser.headerValue.length ≤ MAX_HTTP_FIELD_VALUE
  chunkSize : s.parser.chunkSize ≤ MAX_HTTP_CHUNK
  isInt : IsInt s.parser.specifiedContentLength
  body : BodyInv s

/-- There is room for the byte: for one of the URI, of the version or of a name, and for one of a
body if the length so far was one that its storage could have. -/
def Room (s : Storage) (c : Byte) : Prop :=
  let parser := s.parser
  match parser.state with
  | .REQUEST_URI => ¬(isCR c ∨ isLF c ∨ isWhitespace c) → parser.uri.length < MAX_HTTP_URI + 8
  | .REQUEST_VERSION => isAsciiPrintable c → parser.version.length < MAX_HTTP_VERSION + 8
  | .HEADER_FIELD_NAME =>
    isAsciiPrintable c ∧ c ≠ ASCII_COLON → parser.headerName.length < MAX_HTTP_FIELD_NAME + 8
  | .READING_FIXED_BODY => HasStorage parser.specifiedContentLength
  | .CHUNK_SIZE_CR_SEEN =>
    isLF c ∧ parser.chunkSize ≠ 0 ∧ parser.specifiedContentLength ≠ 0 →
      HasStorage (parser.specifiedContentLength + parser.chunkSize)
  | .READING_CHUNK_DATA =>
    0 < parser.remainingContentLength → HasStorage parser.specifiedContentLength
  | _ => True

def FragmentWithin (unspecified : Unspecified) (s : Storage) : List Byte → Prop
  | [] => True
  | c :: data => Room s c ∧
    ∀ s', s.processByte unspecified c = .ok (true, s') → FragmentWithin unspecified s' data

/-- There is room for every byte of the fragments that is read. -/
def Within (unspecified : Unspecified) (s : Storage) : List (List Byte) → Prop
  | [] => True
  | fragment :: fragments => FragmentWithin unspecified s fragment ∧
    ∀ status s', processHttpFragment unspecified s fragment = .ok (status, s') →
      Within unspecified s' fragments

section Sizes

variable {length : ℤ}

theorem bmod_of_isInt {n : ℤ} (h : IsInt n) : n.bmod (2 ^ 32) = n := by
  obtain ⟨hlower, hupper⟩ := h
  rw [Int.bmod_def]
  split_ifs <;> omega

theorem isInt_bmod (n : ℤ) : IsInt (n.bmod (2 ^ 32)) := by
  rw [IsInt, Int.bmod_def]
  split_ifs <;> omega

theorem le_SLHAlloc (h : HasStorage length) : length ≤ SLHAlloc length := by
  obtain ⟨hnonneg, hless⟩ := h
  have hint : IsInt ((length + 7) / 8 * 8) := by
    rw [IsInt]
    omega
  rw [SLHAlloc, bmod_of_isInt hint]
  omega

/-- A length that is not one, or that is rounded up to none, has no storage at all. -/
theorem SLHAlloc_le_zero (hint : IsInt length) (h : ¬HasStorage length) :
    SLHAlloc length ≤ 0 := by
  obtain ⟨hlower, hupper⟩ := hint
  rw [HasStorage] at h
  rw [SLHAlloc, Int.bmod_def]
  split_ifs <;> omega

theorem index_lt_SLHAlloc_iff {index : ℤ} (hint : IsInt length)
    (hindex : 0 ≤ index) (hlength : HasStorage length → index < length) :
    index < SLHAlloc length ↔ HasStorage length := by
  constructor
  · intro hless
    by_contra hno
    have hzero := SLHAlloc_le_zero hint hno
    omega
  · intro hroom
    have hsize := le_SLHAlloc hroom
    have hless := hlength hroom
    omega

end Sizes

section Stores

variable {s : Storage} {c : Byte}

theorem fits_single {index size : ℤ} : Fits [(index, size)] ↔ 0 ≤ index ∧ index < size := by
  rw [Fits, List.forall_mem_singleton]

theorem fits_if {p : Prop} [Decidable p] {index size : ℤ} :
    Fits (if p then [(index, size)] else []) ↔ (p → 0 ≤ index ∧ index < size) := by
  split_ifs with hp
  · rw [fits_single, forall_prop_of_true hp]
  · exact iff_of_true (List.forall_mem_nil _) fun h => absurd h hp

theorem fits_unless {p : Prop} [Decidable p] {index size : ℤ} :
    Fits (if p then [] else [(index, size)]) ↔ (¬p → 0 ≤ index ∧ index < size) := by
  rw [← ite_not, fits_if]

/-- At the end of a text there is room below the size of its array. -/
theorem fits_length {text : List Byte} {size : ℕ} :
    0 ≤ (text.length : ℤ) ∧ (text.length : ℤ) < size ↔ text.length < size := by
  omega

theorem contentIndex_eq {parser : HttpRequestParser} (hint : IsInt parser.specifiedContentLength)
    (hpositive : 0 < parser.remainingContentLength)
    (hmost : parser.remainingContentLength ≤ parser.specifiedContentLength) :
    contentIndex parser = parser.specifiedContentLength - parser.remainingContentLength := by
  have hindex : IsInt (parser.specifiedContentLength - parser.remainingContentLength) := by
    rw [IsInt] at hint ⊢
    omega
  exact bmod_of_isInt hindex

theorem fits_readingFixedBody (h : Inv s) (hstate : s.parser.state = .READING_FIXED_BODY) :
    Fits [(contentIndex s.parser, s.contentSize)] ↔ HasStorage s.parser.specifiedContentLength := by
  have hbody := h.body
  rw [BodyInv, hstate] at hbody
  obtain ⟨hsize, hpositive, hmost⟩ := hbody
  rw [fits_single, contentIndex_eq h.isInt hpositive hmost, hsize, index_lt_SLHAlloc_iff h.isInt]
  · apply and_iff_right
    omega
  · omega
  · omega

theorem fits_readingChunkData (h : Inv s) (hstate : s.parser.state = .READING_CHUNK_DATA) :
    Fits (if 0 < s.parser.remainingContentLength then [(contentIndex s.parser, s.contentSize)]
      else []) ↔
      (0 < s.parser.remainingContentLength → HasStorage s.parser.specifiedContentLength) := by
  have hbody := h.body
  rw [BodyInv, hstate] at hbody
  obtain ⟨hsize, hmost, -⟩ := hbody
  rw [fits_if]
  apply forall_congr'
  intro hpositive
  by_cases hroom : HasStorage s.parser.specifiedContentLength
  · have hremaining := hmost hroom.1
    have hstored := le_SLHAlloc hroom
    rw [contentIndex_eq h.isInt hpositive hremaining]
    apply iff_of_true _ hroom
    omega
  · have hzero := SLHAlloc_le_zero h.isInt hroom
    apply iff_of_false _ hroom
    omega

/-- A sum that is no `int` is taken for a negative one. -/
theorem hasStorage_contentLengthSum {parser : HttpRequestParser}
    (hlength : HasStorage parser.specifiedContentLength)
    (hchunk : parser.chunkSize ≤ MAX_HTTP_CHUNK) :
    HasStorage (contentLengthSum parser) ↔
      HasStorage (parser.specifiedContentLength + parser.chunkSize) := by
  rw [MAX_HTTP_CHUNK] at hchunk
  rw [HasStorage] at hlength
  rw [contentLengthSum, HasStorage, HasStorage, Int.bmod_def]
  split_ifs <;> omega

theorem le_contentLengthSum {parser : HttpRequestParser}
    (hlength : HasStorage parser.specifiedContentLength)
    (hchunk : parser.chunkSize ≤ MAX_HTTP_CHUNK) (hsum : 0 ≤ contentLengthSum parser) :
    contentLengthSum parser = parser.specifiedContentLength + parser.chunkSize := by
  rw [MAX_HTTP_CHUNK] at hchunk
  rw [HasStorage] at hlength
  rw [contentLengthSum, Int.bmod_def] at hsum ⊢
  split_ifs at hsum ⊢ <;> omega

theorem fits_chunkSizeCRSeen (h : Inv s) (hstate : s.parser.state = .CHUNK_SIZE_CR_SEEN) :
    Fits (if isLF c ∧ s.parser.chunkSize ≠ 0 ∧ s.parser.specifiedContentLength ≠ 0 then
        [(s.parser.specifiedContentLength - 1, SLHAlloc (contentLengthSum s.parser))]
      else []) ↔
      (isLF c ∧ s.parser.chunkSize ≠ 0 ∧ s.parser.specifiedContentLength ≠ 0 →
        HasStorage (s.parser.specifiedContentLength + s.parser.chunkSize)) := by
  have hlength : HasStorage s.parser.specifiedContentLength := by
    have hbody := h.body
    rw [BodyInv, hstate] at hbody
    exact hbody
  have hint : IsInt (contentLengthSum s.parser) := isInt_bmod _
  rw [fits_if, ← hasStorage_contentLengthSum hlength h.chunkSize]
  apply forall_congr'
  intro hcopies
  have hfirst : 0 ≤ s.parser.specifiedContentLength - 1 := by
    have hnonneg := hlength.1
    have hne := hcopies.2.2
    omega
  rw [index_lt_SLHAlloc_iff hint hfirst]
  · exact and_iff_right hfirst
  · intro hsum
    have heq := le_contentLengthSum hlength h.chunkSize hsum.1
    omega

/-- Every store of a byte is in its array exactly if there is room for the byte. -/
theorem fits_iff (h : Inv s) : Fits (s.stores c) ↔ Room s c := by
  have hname := h.methodNameLength
  have hnothing : Fits [] ↔ True := iff_of_true (List.forall_mem_nil _) trivial
  unfold Storage.stores Room
  dsimp only
  cases hstate : s.parser.state with
  | REQUEST_METHOD =>
    rw [fits_if]
    apply iff_of_true _ trivial
    omega
  | REQUEST_GAP1 =>
    rw [fits_unless]
    exact iff_of_true (fun _ => by decide) trivial
  | REQUEST_URI =>
    rw [fits_unless]
    exact forall_congr' fun _ => fits_length
  | REQUEST_GAP2 =>
    rw [fits_unless]
    exact iff_of_true (fun _ => by decide) trivial
  | REQUEST_VERSION =>
    rw [fits_if]
    exact forall_congr' fun _ => fits_length
  | REQUEST_CR_SEEN => exact hnothing
  | HEADER_FIELD_NAME =>
    rw [fits_if]
    exact forall_congr' fun _ => fits_length
  | HEADER_GAP1 =>
    rw [fits_if]
    exact iff_of_true (fun _ => by decide) trivial
  | HEADER_FIELD_CONTENT =>
    rw [fits_if]
    apply iff_of_true _ trivial
    omega
  | HEADER_GAP2 => exact hnothing
  | HEADER_CR_SEEN => exact hnothing
  | END_CR_SEEN => exact hnothing
  | READING_FIXED_BODY => exact fits_readingFixedBody h hstate
  | READING_CHUNK_SIZE => exact hnothing
  | READING_CHUNK_EXTENSION => exact hnothing
  | CHUNK_SIZE_CR_SEEN => exact fits_chunkSizeCRSeen h hstate
  | READING_CHUNK_DATA => exact fits_readingChunkData h hstate
  | CHUNK_DATA_CR_SEEN => exact hnothing
  | READING_CHUNK_TRAILER => exact hnothing
  | CHUNK_TRAILER_CR_SEEN => exact hnothing

end Stores

section Steps

variable {unspecified : Unspecified} {s : Storage} {parser : HttpRequestParser} {c : Byte}

/-- A step with which the parser goes on as it must. -/
def Kept (step : Exec (Bool × Storage)) : Prop := ∃ goesOn s', step = .ok (goesOn, s') ∧ Inv s'

theorem kept_reject (h : Inv s) {code : ℕ} : Kept (s.next (s.parser.reject code)) :=
  ⟨false, _, rfl, h.methodNameLength, h.headerValue, h.chunkSize, h.isInt, h.body⟩

theorem kept_accept (h : Inv { s with parser }) : Kept (s.next parser.accept) := ⟨true, _, rfl, h⟩

theorem kept_state (h : Inv s) {state : HttpState}
    (hbody : BodyInv { s with parser := { s.parser with state } }) :
    Kept (s.next (HttpRequestParser.accept { s.parser with state })) :=
  kept_accept ⟨h.methodNameLength, h.headerValue, h.chunkSize, h.isInt, hbody⟩

theorem isInt_noLength : IsInt (-1) := by decide

theorem isInt_zero : IsInt 0 := by decide

theorem hasStorage_zero : HasStorage 0 := by decide

theorem inv_reset {contentSize : ℤ} (h : parser.chunkSize ≤ MAX_HTTP_CHUNK) :
    Inv { parser := parser.resetParserAndEnqueue, contentSize } :=
  ⟨Nat.zero_le _, Nat.zero_le _, h, isInt_noLength, trivial⟩

theorem next_store {size : ℕ} {buffer : List Byte}
    {step : List Byte → Exec (Bool × HttpRequestParser)} (hroom : buffer.length < size) :
    (do let buffer ← store size buffer c; step buffer) = step (buffer ++ [c]) := by
  rw [store, if_pos hroom]
  rfl

/-- The name is taken for valid or not, also where that is left open. -/
theorem readingMethod_kept (h : Inv s) : Kept (s.next (s.readingMethod unspecified c)) := by
  have hvalid : Kept (s.next (HttpRequestParser.accept { s.parser with state := .REQUEST_GAP1 })) :=
    kept_state h trivial
  unfold Storage.readingMethod HttpRequestParser.readingMethod
  by_cases hblank : isWhitespace c
  · rw [if_pos hblank]
    by_cases hshort : s.parser.methodNameLength < 1
    · rw [if_pos hshort]
      exact kept_reject h
    · rw [if_neg hshort]
      cases s.parser.parserMethodIsValid with
      | ok isValid =>
        cases isValid with
        | true => exact hvalid
        | false => exact kept_reject h
      | error fault =>
        show Kept (s.next (if unspecified.methodIsValid s.parser then _ else _))
        split_ifs
        · exact hvalid
        · exact kept_reject h
  · rw [if_neg hblank]
    by_cases hprintable : isAsciiPrintable c
    · rw [if_pos hprintable]
      by_cases hlong : MAX_HTTP_METHOD_NAME ≤ s.parser.methodNameLength
      · rw [if_pos hlong]
        exact kept_reject h
      · rw [if_neg hlong]
        exact kept_accept ⟨Nat.lt_of_not_le hlong, h.headerValue, h.chunkSize, h.isInt, h.body⟩
    · rw [if_neg hprintable]
      exact kept_reject h

theorem gap1_kept (h : Inv s) : Kept (s.next (s.parser.gap1 c)) := by
  unfold HttpRequestParser.gap1
  split_ifs
  · exact kept_accept ⟨h.methodNameLength, h.headerValue, h.chunkSize, h.isInt, trivial⟩
  · exact kept_reject h
  · exact kept_accept h

theorem readingURI_kept (h : Inv s)
    (hroom : ¬(isCR c ∨ isLF c ∨ isWhitespace c) → s.parser.uri.length < MAX_HTTP_URI + 8) :
    Kept (s.next (s.parser.readingURI c)) := by
  unfold HttpRequestParser.readingURI
  split_ifs with hline hblank
  · exact kept_reject h
  · exact kept_state h trivial
  · rw [next_store]
    · exact kept_accept ⟨h.methodNameLength, h.headerValue, h.chunkSize, h.isInt, h.body⟩
    · apply hroom
      rw [Bool.or_eq_true] at hline
      rw [← or_assoc]
      exact not_or.mpr ⟨hline, hblank⟩

theorem gap2_kept (h : Inv s) : Kept (s.next (s.parser.gap2 c)) := by
  unfold HttpRequestParser.gap2
  split_ifs
  · exact kept_reject h
  · exact kept_accept h
  · exact kept_accept ⟨h.methodNameLength, h.headerValue, h.chunkSize, h.isInt, trivial⟩

theorem readingVersion_kept (h : Inv s)
    (hroom : isAsciiPrintable c → s.parser.version.length < MAX_HTTP_VERSION + 8) :
    Kept (s.next (s.parser.readingVersion c)) := by
  unfold HttpRequestParser.readingVersion
  split_ifs with hCR hprintable
  · exact kept_state h trivial
  · rw [next_store (hroom hprintable)]
    exact kept_accept ⟨h.methodNameLength, h.headerValue, h.chunkSize, h.isInt, h.body⟩
  · exact kept_reject h

theorem requestCRSeen_kept (h : Inv s) : Kept (s.next (s.parser.requestCRSeen c)) := by
  unfold HttpRequestParser.requestCRSeen
  split_ifs
  · exact kept_accept ⟨h.methodNameLength, h.headerValue, h.chunkSize, h.isInt, trivial⟩
  · exact kept_reject h

theorem headerFieldName_kept (h : Inv s)
    (hroom : isAsciiPrintable c ∧ c ≠ ASCII_COLON →
      s.parser.headerName.length < MAX_HTTP_FIELD_NAME + 8) :
    Kept (s.next (s.parser.headerFieldName c)) := by
  unfold HttpRequestParser.headerFieldName
  split_ifs with _ _ hcolon _ hprintable
  · exact kept_state h trivial
  · exact kept_reject h
  · exact kept_reject h
  · exact kept_state h trivial
  · rw [next_store (hroom ⟨hprintable, hcolon⟩)]
    exact kept_accept ⟨h.methodNameLength, h.headerValue, h.chunkSize, h.isInt, h.body⟩
  · exact kept_reject h

theorem headerGap1_kept (h : Inv s) : Kept (s.next (s.parser.headerGap1 c)) := by
  unfold HttpRequestParser.headerGap1
  split_ifs
  · exact kept_accept h
  · exact kept_state h trivial
  · apply kept_accept
    refine ⟨h.methodNameLength, ?_, h.chunkSize, h.isInt, trivial⟩
    show 1 ≤ MAX_HTTP_FIELD_VALUE
    decide
  · exact kept_reject h

theorem isInt_toInt (n : BitVec 32) : IsInt n.toInt := by
  have hlower := n.le_toInt
  have hupper := n.toInt_lt
  rw [IsInt]
  omega

theorem noteHeader_eq {newHeader : HttpHeader} {after : HttpRequestParser}
    (hint : IsInt parser.specifiedContentLength)
    (hnote : parser.noteHeader newHeader = .ok after) :
    ∃ isChunked isWebSocket keepAlive specifiedContentLength contentType,
      after = { parser with
        isChunked
        isWebSocket
        keepAlive
        specifiedContentLength
        contentType } ∧
      IsInt specifiedContentLength := by
  unfold HttpRequestParser.noteHeader at hnote
  obtain ⟨isTransferEncoding, -, hnote⟩ := Exec.bind_eq_ok.mp hnote
  cases isTransferEncoding with
  | true =>
    obtain ⟨chunked, -, hnote⟩ := Exec.bind_eq_ok.mp hnote
    cases chunked with
    | true => exact ⟨_, _, _, _, _, (Except.ok.inj hnote).symm, hint⟩
    | false => exact ⟨_, _, _, _, _, (Except.ok.inj hnote).symm, hint⟩
  | false =>
    obtain ⟨isContentLength, -, hnote⟩ := Exec.bind_eq_ok.mp hnote
    cases isContentLength with
    | true =>
      obtain ⟨n, -, hnote⟩ := Exec.bind_eq_ok.mp hnote
      exact ⟨_, _, _, _, _, (Except.ok.inj hnote).symm, isInt_toInt n⟩
    | false =>
      obtain ⟨isContentType, -, hnote⟩ := Exec.bind_eq_ok.mp hnote
      cases isContentType with
      | true => exact ⟨_, _, _, _, _, (Except.ok.inj hnote).symm, hint⟩
      | false =>
        obtain ⟨isUpgrade, -, hnote⟩ := Exec.bind_eq_ok.mp hnote
        cases isUpgrade with
        | true =>
          obtain ⟨websocket, -, hnote⟩ := Exec.bind_eq_ok.mp hnote
          cases websocket with
          | true => exact ⟨_, _, _, _, _, (Except.ok.inj hnote).symm, hint⟩
          | false => exact ⟨_, _, _, _, _, (Except.ok.inj hnote).symm, hint⟩
        | false =>
          obtain ⟨isConnection, -, hnote⟩ := Exec.bind_eq_ok.mp hnote
          cases isConnection with
          | true =>
            obtain ⟨keepsAlive, -, hnote⟩ := Exec.bind_eq_ok.mp hnote
            cases keepsAlive with
            | true => exact ⟨_, _, _, _, _, (Except.ok.inj hnote).symm, hint⟩
            | false => exact ⟨_, _, _, _, _, (Except.ok.inj hnote).symm, hint⟩
          | false => exact ⟨_, _, _, _, _, (Except.ok.inj hnote).symm, hint⟩

/-- A header changes only what is noted of it. -/
theorem addRequestHeader_eq (hint : IsInt parser.specifiedContentLength) :
    ∃ isChunked isWebSocket keepAlive specifiedContentLength contentType headerChain,
      addRequestHeader unspecified parser = { parser with
        isChunked
        isWebSocket
        keepAlive
        specifiedContentLength
        contentType
        headerChain } ∧
      IsInt specifiedContentLength := by
  unfold addRequestHeader
  cases hread : parser.addRequestHeader with
  | error fault => exact ⟨_, _, _, _, _, _, rfl, isInt_toInt _⟩
  | ok noted =>
    unfold HttpRequestParser.addRequestHeader at hread
    obtain ⟨nativeName, -, hread⟩ := Exec.bind_eq_ok.mp hread
    obtain ⟨nativeValue, -, hread⟩ := Exec.bind_eq_ok.mp hread
    obtain ⟨after, hnote, hread⟩ := Exec.bind_eq_ok.mp hread
    have hafter := noteHeader_eq hint hnote
    obtain ⟨isChunked, isWebSocket, keepAlive, length, contentType, hafter, hint⟩ := hafter
    rw [hafter] at hread
    exact ⟨_, _, _, _, _, _, (Except.ok.inj hread).symm, hint⟩

theorem headerFieldContent_kept (h : Inv s) :
    Kept (s.next (s.headerFieldContent unspecified c)) := by
  unfold Storage.headerFieldContent HttpRequestParser.headerFieldContent
  by_cases hCR : isCR c
  · rw [if_pos hCR]
    obtain ⟨_, _, _, _, _, _, hadd, hint⟩ := @addRequestHeader_eq unspecified
      { s.parser with state := .HEADER_CR_SEEN } h.isInt
    rw [hadd]
    exact kept_accept ⟨h.methodNameLength, h.headerValue, h.chunkSize, hint, trivial⟩
  · rw [if_neg hCR, if_neg hCR]
    split_ifs with hLF hshort
    · exact kept_reject h
    · apply kept_accept
      refine ⟨h.methodNameLength, ?_, h.chunkSize, h.isInt, h.body⟩
      dsimp only
      rw [List.length_append, List.length_singleton]
      omega
    · exact kept_reject h

theorem headerCRSeen_kept (h : Inv s) : Kept (s.next (s.parser.headerCRSeen c)) := by
  unfold HttpRequestParser.headerCRSeen
  split_ifs
  · exact kept_accept ⟨h.methodNameLength, Nat.zero_le _, h.chunkSize, h.isInt, trivial⟩
  · exact kept_reject h

theorem endCRSeen_kept (h : Inv s) (hstate : s.parser.state = .END_CR_SEEN) : Kept (s.endCRSeen c) := by
  unfold Storage.endCRSeen HttpRequestParser.endCRSeen
  split_ifs with hLF hchunked hspecified
  · refine ⟨true, _, rfl, h.methodNameLength, h.headerValue, Nat.zero_le _, ?_, ?_⟩
    · exact isInt_zero
    · exact hasStorage_zero
  · exact ⟨true, _, rfl, inv_reset h.chunkSize⟩
  · refine ⟨true, _, rfl, h.methodNameLength, h.headerValue, h.chunkSize, h.isInt, rfl, ?_, le_rfl⟩
    exact not_le.mp hspecified
  · refine ⟨false, _, rfl, h.methodNameLength, h.headerValue, h.chunkSize, h.isInt, ?_⟩
    rw [BodyInv]
    dsimp only
    rw [hstate]
    trivial

theorem readingFixedBody_kept (h : Inv s) (hstate : s.parser.state = .READING_FIXED_BODY) :
    Kept (s.next (s.parser.readingFixedBody c)) := by
  have hbody := h.body
  rw [BodyInv, hstate] at hbody
  obtain ⟨hsize, -, hmost⟩ := hbody
  unfold HttpRequestParser.readingFixedBody
  dsimp only
  split_ifs with hend
  · exact kept_accept (inv_reset h.chunkSize)
  · apply kept_accept
    refine ⟨h.methodNameLength, h.headerValue, h.chunkSize, h.isInt, ?_⟩
    have hless : s.parser.remainingContentLength - 1 ≤ s.parser.specifiedContentLength := by omega
    rw [BodyInv]
    unfold HttpRequestParser.storeContent
    dsimp only
    rw [hstate]
    exact ⟨hsize, not_le.mp hend, hless⟩

theorem readingChunkSize_kept (h : Inv s) (hstate : s.parser.state = .READING_CHUNK_SIZE) :
    Kept (s.next (s.parser.readingChunkSize c)) := by
  have hbody : HasStorage s.parser.specifiedContentLength := by
    have hbody := h.body
    rw [BodyInv, hstate] at hbody
    exact hbody
  unfold HttpRequestParser.readingChunkSize
  cases hdigit : Hexadecimal.digit? c with
  | some value =>
    dsimp only
    split_ifs with hlarge
    · exact kept_reject h
    · apply kept_accept
      refine ⟨h.methodNameLength, h.headerValue, ?_, h.isInt, h.body⟩
      have hvalue := Hexadecimal.digit?_lt hdigit
      dsimp only
      rw [MAX_HTTP_CHUNK] at hlarge ⊢
      omega
  | none =>
    dsimp only
    split_ifs
    · exact kept_state h hbody
    · exact kept_state h hbody
    · exact kept_reject h

theorem readingChunkExtension_kept (h : Inv s)
    (hstate : s.parser.state = .READING_CHUNK_EXTENSION) :
    Kept (s.next (s.parser.readingChunkExtension c)) := by
  have hbody : HasStorage s.parser.specifiedContentLength := by
    have hbody := h.body
    rw [BodyInv, hstate] at hbody
    exact hbody
  unfold HttpRequestParser.readingChunkExtension
  split_ifs
  · exact kept_state h hbody
  · exact kept_accept h

theorem chunkSizeCRSeen_kept (h : Inv s) (hstate : s.parser.state = .CHUNK_SIZE_CR_SEEN) :
    Kept (s.chunkSizeCRSeen c) := by
  have hbody : HasStorage s.parser.specifiedContentLength := by
    have hbody := h.body
    rw [BodyInv, hstate] at hbody
    exact hbody
  unfold Storage.chunkSizeCRSeen
  by_cases hdata : isLF c ∧ s.parser.chunkSize ≠ 0
  · rw [if_pos hdata]
    refine ⟨true, _, rfl, h.methodNameLength, h.headerValue, h.chunkSize, isInt_bmod _, rfl, ?_, ?_⟩
    · intro hsum
      have heq := le_contentLengthSum hbody h.chunkSize hsum
      have hnonneg := hbody.1
      dsimp only
      omega
    · left
      exact Int.natCast_pos.mpr (Nat.pos_of_ne_zero hdata.2)
  · rw [if_neg hdata]
    unfold HttpRequestParser.chunkSizeCRSeen
    by_cases hLF : isLF c
    · have hend : s.parser.chunkSize = 0 := by
        by_contra hne
        exact hdata ⟨hLF, hne⟩
      rw [if_pos hLF, if_pos hend]
      exact kept_state h trivial
    · rw [if_neg hLF]
      exact kept_reject h

theorem readingChunkData_kept (h : Inv s) (hstate : s.parser.state = .READING_CHUNK_DATA)
    (hroom : 0 < s.parser.remainingContentLength → HasStorage s.parser.specifiedContentLength) :
    Kept (s.next (s.parser.readingChunkData c)) := by
  have hbody := h.body
  rw [BodyInv, hstate] at hbody
  obtain ⟨hsize, hmost, hgiven⟩ := hbody
  unfold HttpRequestParser.readingChunkData
  split_ifs with hend hCR
  · have hlength := hgiven.resolve_left (not_lt.mpr hend)
    exact kept_state h hlength
  · exact kept_reject h
  · have hlength := hroom (not_le.mp hend)
    have hremaining := hmost hlength.1
    have hless : s.parser.remainingContentLength - 1 ≤ s.parser.specifiedContentLength := by omega
    apply kept_accept
    refine ⟨h.methodNameLength, h.headerValue, h.chunkSize, h.isInt, ?_⟩
    rw [BodyInv]
    unfold HttpRequestParser.storeContent
    dsimp only
    rw [hstate]
    exact ⟨hsize, fun _ => hless, .inr hlength⟩

theorem chunkDataCRSeen_kept (h : Inv s) (hstate : s.parser.state = .CHUNK_DATA_CR_SEEN) :
    Kept (s.next (s.parser.chunkDataCRSeen c)) := by
  have hbody : HasStorage s.parser.specifiedContentLength := by
    have hbody := h.body
    rw [BodyInv, hstate] at hbody
    exact hbody
  unfold HttpRequestParser.chunkDataCRSeen
  split_ifs
  · exact kept_accept ⟨h.methodNameLength, h.headerValue, Nat.zero_le _, h.isInt, hbody⟩
  · exact kept_reject h

theorem readingChunkTrailer_kept (h : Inv s) : Kept (s.next (s.parser.readingChunkTrailer c)) := by
  unfold HttpRequestParser.readingChunkTrailer
  split_ifs
  · exact kept_state h trivial
  · exact kept_reject h

theorem chunkTrailerCRSeen_kept (h : Inv s) : Kept (s.next (s.parser.chunkTrailerCRSeen c)) := by
  unfold HttpRequestParser.chunkTrailerCRSeen
  split_ifs
  · exact kept_accept (inv_reset h.chunkSize)
  · exact kept_reject h

/-- A byte for which there is room leaves the parser as it must be. -/
theorem advance_kept (h : Inv s) (hroom : Room s c) : Kept (s.advance unspecified c) := by
  unfold Room at hroom
  unfold Storage.advance HttpRequestParser.processByte
  dsimp only at hroom
  cases hstate : s.parser.state with
  | REQUEST_METHOD => exact readingMethod_kept h
  | REQUEST_GAP1 => exact gap1_kept h
  | REQUEST_URI =>
    rw [hstate] at hroom
    exact readingURI_kept h hroom
  | REQUEST_GAP2 => exact gap2_kept h
  | REQUEST_VERSION =>
    rw [hstate] at hroom
    exact readingVersion_kept h hroom
  | REQUEST_CR_SEEN => exact requestCRSeen_kept h
  | HEADER_FIELD_NAME =>
    rw [hstate] at hroom
    exact headerFieldName_kept h hroom
  | HEADER_GAP1 => exact headerGap1_kept h
  | HEADER_FIELD_CONTENT => exact headerFieldContent_kept h
  | HEADER_GAP2 => exact kept_accept h
  | HEADER_CR_SEEN => exact headerCRSeen_kept h
  | END_CR_SEEN => exact endCRSeen_kept h hstate
  | READING_FIXED_BODY => exact readingFixedBody_kept h hstate
  | READING_CHUNK_SIZE => exact readingChunkSize_kept h hstate
  | READING_CHUNK_EXTENSION => exact readingChunkExtension_kept h hstate
  | CHUNK_SIZE_CR_SEEN => exact chunkSizeCRSeen_kept h hstate
  | READING_CHUNK_DATA =>
    rw [hstate] at hroom
    exact readingChunkData_kept h hstate hroom
  | CHUNK_DATA_CR_SEEN => exact chunkDataCRSeen_kept h hstate
  | READING_CHUNK_TRAILER => exact readingChunkTrailer_kept h
  | CHUNK_TRAILER_CR_SEEN => exact chunkTrailerCRSeen_kept h

theorem processByte_kept (h : Inv s) (hroom : Room s c) :
    Kept (s.processByte unspecified c) := by
  rw [Storage.processByte, if_pos ((fits_iff h).mpr hroom)]
  exact advance_kept h hroom

theorem processByte_outside (h : Inv s) (hroom : ¬Room s c) :
    s.processByte unspecified c = .error .undefinedBehaviour :=
  if_neg (mt (fits_iff h).mp hroom)

end Steps

section Runs

variable {unspecified : Unspecified} {s : Storage}

theorem fragment_kept (h : Inv s) {data : List Byte} {goesOn : Bool} {s' : Storage}
    (hrun : processHttpFragment unspecified s data = .ok (goesOn, s')) : Inv s' := by
  induction data generalizing s with
  | nil =>
    cases hrun
    exact h
  | cons c data ih =>
    rw [processHttpFragment] at hrun
    obtain ⟨⟨more, after⟩, hstep, hrest⟩ := Exec.bind_eq_ok.mp hrun
    have hroom : Room s c := by
      by_contra hno
      rw [processByte_outside h hno] at hstep
      cases hstep
    obtain ⟨_, _, hkept, hinv⟩ := @processByte_kept unspecified _ _ h hroom
    rw [hstep] at hkept
    cases hkept
    cases more with
    | true => exact ih hinv hrest
    | false =>
      cases hrest
      exact hinv

theorem fragment_iff (h : Inv s) (data : List Byte) :
    (∃ result, processHttpFragment unspecified s data = .ok result) ↔
      FragmentWithin unspecified s data := by
  induction data generalizing s with
  | nil => exact iff_of_true ⟨_, rfl⟩ trivial
  | cons c data ih =>
    rw [processHttpFragment, FragmentWithin]
    by_cases hroom : Room s c
    · obtain ⟨goesOn, after, hstep, hinv⟩ := @processByte_kept unspecified _ _ h hroom
      rw [hstep, Exec.ok_bind, and_iff_right hroom]
      dsimp only
      cases goesOn with
      | true =>
        rw [if_pos rfl, ih hinv]
        constructor
        · intro hwithin s' heq
          cases heq
          exact hwithin
        · exact fun hwithin => hwithin after rfl
      | false =>
        rw [if_neg Bool.false_ne_true]
        apply iff_of_true ⟨_, rfl⟩
        intro s' heq
        exact absurd (Prod.mk.inj (Except.ok.inj heq)).1 Bool.false_ne_true
    · rw [processByte_outside h hroom]
      constructor
      · intro ⟨result, hrun⟩
        cases hrun
      · exact fun hwithin => absurd hwithin.1 hroom

theorem receive_iff (h : Inv s) (fragments : List (List Byte)) :
    (∃ result, receive unspecified s fragments = .ok result) ↔
      Within unspecified s fragments := by
  induction fragments generalizing s with
  | nil => exact iff_of_true ⟨_, rfl⟩ trivial
  | cons fragment fragments ih =>
    rw [receive, Within, ← fragment_iff h]
    cases hrun : processHttpFragment unspecified s fragment with
    | error fault =>
      constructor
      · intro ⟨result, hall⟩
        cases hall
      · intro ⟨⟨result, hfirst⟩, _⟩
        cases hfirst
    | ok result =>
      obtain ⟨status, after⟩ := result
      have hrest := ih (fragment_kept h hrun)
      rw [Exec.ok_bind]
      constructor
      · intro ⟨all, hall⟩
        obtain ⟨others, hothers, -⟩ := Exec.bind_eq_ok.mp hall
        refine ⟨⟨_, rfl⟩, ?_⟩
        intro _ _ heq
        cases heq
        exact hrest.mp ⟨others, hothers⟩
      · intro ⟨_, hwithin⟩
        obtain ⟨others, hothers⟩ := hrest.mpr (hwithin status after rfl)
        dsimp only
        rw [hothers]
        exact ⟨_, rfl⟩

end Runs

theorem inv_make : Inv {} := ⟨Nat.zero_le _, Nat.zero_le _, Nat.zero_le _, isInt_noLength, trivial⟩

/-- Whatever a client sends, in whatever fragments, is stored where it may be exactly if there is
room for every byte that is read. -/
theorem receive_fits_iff (unspecified : Unspecified) (fragments : List (List Byte)) :
    (∃ result, receive unspecified {} fragments = .ok result) ↔ Within unspecified {} fragments :=
  receive_iff inv_make fragments

/-- What is left open does not matter to requests in ASCII. -/
def noneUnspecified : Unspecified where
  native text := text
  methodIsValid _ := true
  isChunked parser := parser.isChunked
  isWebSocket parser := parser.isWebSocket
  keepAlive parser := parser.keepAlive
  specifiedContentLength parser := BitVec.ofInt 32 parser.specifiedContentLength
  contentType parser := parser.contentType

/-- A version of one character more than its array has. -/
theorem not_receive_fits :
    receive noneUnspecified {}
        [CString.ascii "GET / ", List.replicate (MAX_HTTP_VERSION + 9) 0x31] =
      .error .undefinedBehaviour := by
  decide +kernel

end RequestStorage
end Http
end ZoweCommon
