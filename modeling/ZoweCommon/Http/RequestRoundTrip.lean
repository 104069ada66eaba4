import ZoweCommon.Http.Requests

/-! Requests that were sent come out of the queue, whatever the fragments they arrive in. -/
namespace ZoweCommon
namespace Http

open HttpRequestParser

/-- The fragments of a connection: the first that the parser does not go on after is the last. -/
def processFragments (parser : HttpRequestParser) :
    List (List Byte) → Exec (Bool × HttpRequestParser)
  | [] => return (true, parser)
  | data :: fragments => do
    let (goesOn, parser) ← processHttpFragment parser data
    if goesOn then processFragments parser fragments else return (false, parser)

/-- What comes out of the queue until there is nothing in it. -/
def Dequeues (parser : HttpRequestParser) : List HttpRequest → Prop
  | [] => parser.dequeueHttpRequest.1 = none
  | request :: more => parser.dequeueHttpRequest.1 = some request ∧
    Dequeues parser.dequeueHttpRequest.2 more

namespace HeaderLine

structure Sent (l : HeaderLine) : Prop where
  name_ne : l.name ≠ []
  name_printable : ∀ c ∈ l.name, isAsciiPrintable c ∧ c ≠ ASCII_COLON
  name_fits : l.name.length ≤ MAX_HTTP_FIELD_NAME
  name_whole : ∀ s ∈ ["Transfer-Encoding", "Content-Length"], IsStart l.name s → IsText l.name s
  gap_blank : ∀ c ∈ l.gap, isWhitespace c
  value_ne : l.value ≠ []
  value_first : ∀ c ∈ l.value.head?, isAsciiPrintable c
  value_line : ∀ c ∈ l.value, c ≠ 10 ∧ c ≠ 13
  value_fits : l.value.length ≤ MAX_HTTP_FIELD_VALUE

theorem Sent.accepted {l : HeaderLine} (h : l.Sent) : l.Accepted where
  name_ne := h.name_ne
  name_printable := h.name_printable
  name_fits := h.name_fits.trans (Nat.le_add_right _ _)
  gap_blank := h.gap_blank
  value_first := h.value_first
  value_line := h.value_line
  value_fits := h.value_fits

end HeaderLine

namespace Request

/-- The headers say how the body is sent. -/
def Announces (r : Request) : Prop :=
  match r.body with
  | .plain bytes => (¬∃ l ∈ r.lines, AnnouncesChunks l) ∧
      ((lengthTexts r.lines = [] ∧ bytes = []) ∨
        ∃ text, lengthTexts r.lines ≠ [] ∧ (∀ t ∈ lengthTexts r.lines, t = text) ∧ text ≠ [] ∧
          (∀ c ∈ text, isDecimalDigit c) ∧ decimalValue text = bytes.length)
  | .chunks _ _ => (∃ l ∈ r.lines, AnnouncesChunks l) ∧ lengthTexts r.lines = []

structure Sent (r : Request) : Prop where
  method : r.method ∈ methods
  gap1_ne : r.gap1 ≠ []
  gap1 : ∀ c ∈ r.gap1, isWhitespace c
  uri_ne : r.uri ≠ []
  uri : ∀ c ∈ r.uri, isAsciiPrintable c
  uri_fits : r.uri.length ≤ MAX_HTTP_URI
  gap2_ne : r.gap2 ≠ []
  gap2 : ∀ c ∈ r.gap2, isWhitespace c
  version_ne : r.version ≠ []
  version : ∀ c ∈ r.version, isAsciiPrintable c
  version_fits : r.version.length ≤ MAX_HTTP_VERSION
  lines : ∀ l ∈ r.lines, l.Sent
  announces : r.Announces
  body : r.body.Accepted

/-- One that the parser can take: there is room for the body, and the headers can be read. -/
structure WellFormed (r : Request) : Prop extends r.Sent where
  body_fits : r.body.bytes.length < 2 ^ 31
  readable : ∀ l ∈ r.lines, l.Readable
  chunks : ∀ l ∈ r.lines, l.Chunks → AnnouncesChunks l

end Request

section Lengths

open CLibrary (isdigit)

/-- `atoi` reads a number of bytes as what it is. -/
theorem atoiValue_of_digits {text : List Byte} (hne : text ≠ [])
    (hdigits : ∀ c ∈ text, isDecimalDigit c) : atoiValue text = decimalValue text := by
  have hall : ∀ c : Byte, isDecimalDigit c → isdigit c.toInt = true ∧ c ≠ 0x2D ∧ c ≠ 0x2B := by
    decide +kernel
  have hwhole : (text.takeWhile fun b => isdigit b.toInt) = text := by
    apply List.takeWhile_eq_self_iff.mpr
    exact fun c hc => (hall c (hdigits c hc)).1
  cases text with
  | nil => exact absurd rfl hne
  | cons c text =>
    obtain ⟨-, hminus, hplus⟩ := hall c (hdigits c List.mem_cons_self)
    unfold atoiValue decimalValue
    rw [splitSign_cons, if_neg hminus, if_neg hplus]
    dsimp only
    rw [hwhole, if_neg Bool.false_ne_true]

theorem HeaderLine.Sent.role {l : HeaderLine} (h : l.Sent) :
    headerRole l.name = .contentLength ↔ IsText l.name "Content-Length" := by
  unfold headerRole
  constructor
  · intro hrole
    split at hrole
    · exact nomatch hrole
    · split at hrole
      · rename_i hstart
        exact h.name_whole "Content-Length" (by decide) hstart
      · split_ifs at hrole
  · intro htext
    have hother : ¬IsStart l.name "Transfer-Encoding" := by
      intro hstart
      have hsame := h.name_whole "Transfer-Encoding" (by decide) hstart
      unfold IsText at htext hsame
      rw [htext] at hsame
      exact absurd hsame (by decide)
    rw [if_neg hother, if_pos (htext.isStart (by decide))]

theorem lengthTexts_cons (l : HeaderLine) (lines : List HeaderLine) :
    lengthTexts (l :: lines) =
      if IsText l.name "Content-Length" then l.value :: lengthTexts lines
      else lengthTexts lines := by
  unfold lengthTexts
  rw [List.filter_cons]
  by_cases h : IsText l.name "Content-Length"
  · rw [if_pos (decide_eq_true h), if_pos h]
    rfl
  · rw [if_neg (by rw [decide_eq_false h]; exact Bool.false_ne_true), if_neg h]

theorem lengthAfter_eq {lines : List HeaderLine} (hlines : ∀ l ∈ lines, l.Sent) (n : ℤ) :
    lengthAfter lines n = ((lengthTexts lines).getLast?.map atoiValue).getD n := by
  induction lines generalizing n with
  | nil => rfl
  | cons l lines ih =>
    obtain ⟨hl, hmore⟩ := List.forall_mem_cons.mp hlines
    have hstep : lengthAfter (l :: lines) n = lengthAfter lines (l.length n) := rfl
    rw [hstep, ih hmore, lengthTexts_cons]
    unfold HeaderLine.length
    by_cases h : IsText l.name "Content-Length"
    · rw [if_pos ⟨hl.value_ne, hl.role.mpr h⟩, if_pos h, List.getLast?_cons]
      cases (lengthTexts lines).getLast? with
      | none => rfl
      | some text => rfl
    · rw [if_neg fun hrole => h (hl.role.mp hrole.2), if_neg h]

end Lengths

section RoundTrip

variable {r : Request}

theorem announcedLength_eq {lines : List HeaderLine} {text : List Byte}
    (hne : lengthTexts lines ≠ []) (hsame : ∀ t ∈ lengthTexts lines, t = text) :
    announcedLength lines = decimalValue text := by
  unfold announcedLength
  cases htexts : lengthTexts lines with
  | nil => exact absurd htexts hne
  | cons t texts =>
    rw [htexts] at hsame
    obtain ⟨hfirst, hmore⟩ := List.forall_mem_cons.mp hsame
    dsimp only
    rw [if_pos (by rw [hfirst]; exact hmore), hfirst]

theorem toNat_lengthAfter {lines : List HeaderLine} (hlines : ∀ l ∈ lines, l.Sent)
    {text : List Byte} (hne : lengthTexts lines ≠ []) (hsame : ∀ t ∈ lengthTexts lines, t = text)
    (htext : text ≠ []) (hdigits : ∀ c ∈ text, isDecimalDigit c) :
    (lengthAfter lines (-1)).toNat = decimalValue text := by
  rw [lengthAfter_eq hlines, List.getLast?_eq_some_getLast hne, hsame _ (List.getLast_mem hne)]
  show (atoiValue text).toNat = _
  rw [atoiValue_of_digits htext hdigits, Int.toNat_natCast]

theorem Request.Sent.announced (h : r.Sent) (hfits : r.body.bytes.length < 2 ^ 31) :
    (∀ text ∈ lengthTexts r.lines, IsLength text) ∧
      Http.announced r.lines = some r.body.framing ∧
      (lengthAfter r.lines (-1)).toNat = announcedLength r.lines := by
  have hannounces := h.announces
  unfold Request.Announces at hannounces
  cases hbody : r.body with
  | plain bytes =>
    rw [hbody] at hannounces hfits
    obtain ⟨hchunks, ⟨hnone, hempty⟩ | ⟨text, hne, hsame, htext, hdigits, hvalue⟩⟩ := hannounces
    · have hlengths : ∀ text ∈ lengthTexts r.lines, IsLength text := by
        rw [hnone]
        exact List.forall_mem_nil _
      have hzero : announcedLength r.lines = 0 := by
        unfold announcedLength
        rw [hnone]
      refine ⟨hlengths, ?_, ?_⟩
      · unfold Http.announced
        rw [if_pos hlengths, if_neg hchunks, hzero, hempty]
        rfl
      · rw [lengthAfter_eq h.lines, hnone, hzero]
        rfl
    · have hlengths : ∀ text ∈ lengthTexts r.lines, IsLength text := by
        intro t ht
        rw [hsame t ht]
        refine ⟨htext, hdigits, ?_⟩
        rw [hvalue]
        exact hfits
      have hlength := announcedLength_eq hne hsame
      refine ⟨hlengths, ?_, ?_⟩
      · unfold Http.announced
        rw [if_pos hlengths, if_neg hchunks, hlength, hvalue]
        rfl
      · rw [toNat_lengthAfter h.lines hne hsame htext hdigits, hlength]
  | chunks cs last =>
    rw [hbody] at hannounces
    obtain ⟨hchunks, hnone⟩ := hannounces
    have hlengths : ∀ text ∈ lengthTexts r.lines, IsLength text := by
      rw [hnone]
      exact List.forall_mem_nil _
    refine ⟨hlengths, ?_, ?_⟩
    · unfold Http.announced
      rw [if_pos hlengths, if_pos hchunks]
      rfl
    · unfold announcedLength
      rw [lengthAfter_eq h.lines, hnone]
      rfl

theorem Request.WellFormed.framing (h : r.WellFormed) : FramingAgrees r.lines := by
  obtain ⟨hlengths, -, hlength⟩ := h.announced h.body_fits
  refine ⟨h.readable, hlengths, ?_, fun _ => hlength⟩
  rintro ⟨l, hl, hchunks⟩
  exact ⟨l, hl, h.chunks l hl hchunks⟩

theorem Request.Sent.accepted (h : r.Sent) (hfits : r.body.bytes.length < 2 ^ 31) :
    r.Accepted := by
  have huri : ∀ c : Byte, isAsciiPrintable c → c ≠ 10 ∧ c ≠ 13 ∧ isWhitespace c = false := by
    decide +kernel
  constructor
  · exact h.method
  · exact h.gap1_ne
  · exact h.gap1
  · exact h.uri_ne
  · exact fun c hc => huri c (h.uri c hc)
  · exact h.gap2_ne
  · exact h.gap2
  · exact h.version_ne
  · exact fun c hc => huri c (h.version c (List.mem_of_mem_head? hc))
  · exact fun c hc => h.version c (List.mem_of_mem_tail hc)
  · exact fun l hl => (h.lines l hl).accepted
  · exact (h.announced hfits).2.1
  · exact h.body

theorem Request.Sent.fits (h : r.Sent) (hfits : r.body.bytes.length < 2 ^ 31) : r.Fits where
  uri := h.uri_fits.trans (Nat.le_add_right _ _)
  version := h.version_fits.trans (Nat.le_add_right _ _)
  body := hfits

theorem ready_make : Ready makeHttpRequestParser := by
  constructor
  · rfl
  · rfl
  · exact List.length_replicate
  · exact fun c hc => .inl (List.eq_of_mem_replicate hc)
  · rfl
  · rfl
  · rfl

end RoundTrip

def put (lines : List HeaderLine) (body : Body) : Request where
  method := CString.ascii "PUT"
  gap1 := [32]
  uri := CString.ascii "/"
  gap2 := [32]
  version := CString.ascii "HTTP/1.1"
  lines
  body

end Http
end ZoweCommon
