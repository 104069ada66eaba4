import ZoweCommon.Json.ParserText
import ZoweCommon.Json.PrinterText

/-! Parsing what was printed. -/
namespace ZoweCommon

open CLibrary CString JsonTokenizer JsonPrinter

/-- What printing and parsing makes of a value without parts. -/
def rereadScalar (decode : CString → CString) : JsonScalar → JsonScalar
  | .int64 n => .number (BitVec.ofInt 32 n.toInt)
  | .string s => .string (decode s)
  | s => s

/-- What printing and parsing makes of a tree. -/
def rereading (decode : CString → CString) : Json.Rewriting where
  scalar := rereadScalar decode
  key := decode

/-- A string that is read back as `decode` says and fits in the token buffer. -/
def StringRereads (mode : JsonCharsetConversion) (decode : CString → CString) (s : CString) : Prop :=
  Decodes (escape mode s.bytes) (decode s).bytes ∧ (decode s).bytes.length ≤ MAX_TOKEN

/-- A value without parts that is read back. -/
def ScalarRereads (mode : JsonCharsetConversion) (decode : CString → CString) : JsonScalar → Prop
  | .int64 n => -2 ^ 31 ≤ n.toInt ∧ n.toInt < 2 ^ 31
  | .double _ => False
  | .string s => StringRereads mode decode s
  | _ => True

/-- No number or word goes on in the text that follows. -/
def Ends (rest : List Byte) : Prop := isdigit (peek rest) = false ∧ isalpha (peek rest) = false

namespace JsonParser

variable {mode : JsonCharsetConversion} {decode : CString → CString} {pretty : Bool}
  {rest : List Byte}

/-- The text of a value begins with a token, and from there on the parser reads the value. -/
def Parses (mode : JsonCharsetConversion) (decode : CString → CString) (pretty : Bool) (t : Json) :
    Prop :=
  ∀ ⦃depth : ℕ⦄ ⦃rest : List Byte⦄, Ends rest → ∃ head tail token,
    text mode pretty depth t = head ++ tail ∧ 1 ≤ head.length ∧
    Scans (tail ++ rest) head token ∧ token.type ≠ .JSON_TOKEN_ARRAY_END ∧
    ∀ ⦃n : ℕ⦄ ⦃p : JsonParser⦄ ⦃fuel : ℕ⦄, Ready n p token (tail ++ rest) → n + 3 ≤ fuel →
      3 * (tail ++ rest).length + 10 ≤ fuel →
      ∃ p', jsonParse fuel p = .ok (some (t.map (rereading decode)), p') ∧ p'.Fresh rest

theorem jsonGetScalar_ok {n fuel : ℕ} {p : JsonParser} {token : JsonToken} {type : JsonTokenType}
    {scalar : CString → Exec JsonScalar} {s : JsonScalar} (h : Ready n p token rest)
    (hfuel : n + 1 < fuel) (htype : token.type = type) (hmatched : type ≠ .JSON_TOKEN_UNMATCHED)
    (hscalar : scalar token.text = .ok s) :
    ∃ p', p.jsonGetScalar fuel type scalar = .ok (some (.scalar s), p') ∧ p'.Fresh rest := by
  obtain ⟨p', hrun, h'⟩ := h.jsonMatchToken hfuel htype
  refine ⟨p', ?_, h'⟩
  have hunmatched : jsonIsTokenUnmatched token = false := by
    unfold jsonIsTokenUnmatched
    exact decide_eq_false (by rwa [htype])
  unfold jsonGetScalar
  rw [hrun, Exec.ok_bind]
  dsimp only
  rw [if_neg (by rw [hunmatched]; exact Bool.false_ne_true), hscalar, Exec.ok_bind]
  rfl

/-- A value without parts is read from its one token. -/
theorem parses_scalar {s : JsonScalar} (word : List Byte) (token : JsonToken) (type : JsonTokenType)
    (scalar : CString → Exec JsonScalar) (hword : scalarText mode s = word) (hpos : 1 ≤ word.length)
    (hscans : ∀ rest, Ends rest → Scans rest word token) (htype : token.type = type)
    (hmatched : type ≠ .JSON_TOKEN_UNMATCHED) (hbracket : type ≠ .JSON_TOKEN_ARRAY_END)
    (hscalar : scalar token.text = .ok (rereadScalar decode s))
    (hparse : ∀ (fuel : ℕ) (p p₁ : JsonParser), p.jsonLookaheadToken fuel = .ok (token, p₁) →
      jsonParse (fuel + 1) p = p₁.jsonGetScalar fuel type scalar) :
    Parses mode decode pretty (.scalar s) := by
  intro depth rest hends
  refine ⟨word, [], token, ?_, hpos, hscans rest hends, by rwa [htype], ?_⟩
  · rw [text, hword, List.append_nil]
  · intro n p fuel hready hfuel _
    obtain ⟨fuel, rfl⟩ : ∃ m, fuel = m + 1 := Nat.exists_eq_succ_of_ne_zero (by omega)
    obtain ⟨p₁, hrun₁, hready₁⟩ := hready.jsonLookaheadToken (show n + 1 < fuel by omega)
    obtain ⟨p', hrun', h'⟩ := jsonGetScalar_ok (hready₁ 0) (show 0 + 1 < fuel by omega) htype
      hmatched hscalar
    refine ⟨p', ?_, h'⟩
    rw [hparse fuel p p₁ hrun₁, hrun', Json.map]
    rfl

theorem parses_number {z : ℤ} (hlo : -2 ^ 31 ≤ z) (hhi : z < 2 ^ 31) {s : JsonScalar}
    (htext : scalarText mode s = snprintf 64 (formatD z))
    (hreread : rereadScalar decode s = .number (BitVec.ofInt 32 z)) :
    Parses mode decode pretty (.scalar s) := by
  have hsmall : z.natAbs < 10 ^ 20 := by omega
  have hlength := length_formatD_le hsmall
  have hpos : 1 ≤ (formatD z).length := by
    obtain ⟨d, -, digits, hdigits⟩ := exists_digitChar_cons z.natAbs
    unfold formatD
    split_ifs <;> simp [hdigits]
  have hroom : (formatD z).length ≤ JSON_TOKEN_BUFFER_SIZE := hlength.trans (by decide)
  have hbytes : (ofBytes (formatD z)).bytes = formatD z := ofBytes_of_noNul (noNul_formatD z)
  apply parses_scalar (formatD z) (makeJsonToken .JSON_TOKEN_NUMBER (formatD z)) .JSON_TOKEN_NUMBER
    (fun text => do return .number (← atoi text)) (htext.trans (snprintf_formatD hsmall)) hpos
    (fun rest hends => .number hroom hends.1) rfl (by decide) (by decide)
  · show (do return JsonScalar.number (← atoi (ofBytes (formatD z)))) = _
    rw [atoi_formatD hbytes hlo hhi, hreread]
    rfl
  · intro fuel p p₁ hrun
    rw [jsonParse, hrun]
    rfl

theorem parses_string {s : CString} (h : StringRereads mode decode s) :
    Parses mode decode pretty (.scalar (.string s)) := by
  obtain ⟨hdecodes, hroom⟩ := h
  apply parses_scalar (quoted mode s) (makeJsonToken .JSON_TOKEN_STRING (decode s).bytes)
    .JSON_TOKEN_STRING (fun text => return .string text) rfl (by simp [quoted, ascii])
    (fun rest _ => .string hdecodes hroom) rfl (by decide) (by decide)
  · show Except.ok (JsonScalar.string (ofBytes (decode s).bytes)) = _
    rw [ofBytes_bytes]
    rfl
  · intro fuel p p₁ hrun
    rw [jsonParse, hrun]
    rfl

theorem parses_boolean (b : Bool) : Parses mode decode pretty (.scalar (.boolean b)) := by
  apply parses_scalar (if b then ascii "true" else ascii "false")
    (makeJsonToken .JSON_TOKEN_BOOLEAN (if b then ascii "true" else ascii "false"))
    .JSON_TOKEN_BOOLEAN (fun text => return .boolean (text.bytes = ascii "true")) rfl
    (by cases b <;> decide) (fun rest hends => .boolean b hends.2) rfl (by decide) (by decide)
  · cases b <;> rfl
  · intro fuel p p₁ hrun
    rw [jsonParse, hrun]
    rfl

theorem parses_null : Parses mode decode pretty (.scalar .null) := by
  apply parses_scalar (ascii "null") (makeJsonToken .JSON_TOKEN_NULL (ascii "null"))
    .JSON_TOKEN_NULL (fun _ => return .null) rfl (by decide) (fun rest hends => .null hends.2) rfl (by decide) (by decide) rfl
  intro fuel p p₁ hrun
  rw [jsonParse, hrun]
  rfl

theorem isspace_newLine (pretty : Bool) (depth : ℕ) :
    ∀ c ∈ newLine pretty depth, isspace c.toInt = true := by
  intro c hc
  unfold newLine at hc
  cases pretty with
  | false => simp at hc
  | true =>
    rw [if_pos rfl, List.mem_append] at hc
    rcases hc with hc | hc
    · revert c
      decide
    · obtain ⟨l, hl, hc⟩ := List.mem_flatten.mp hc
      rw [List.eq_of_mem_replicate hl] at hc
      have hall : ∀ c ∈ indentString, isspace c.toInt = true := by decide
      exact hall c hc

theorem ends_newLine {pretty : Bool} {depth : ℕ} {rest : List Byte} (h : Ends rest) :
    Ends (newLine pretty depth ++ rest) := by
  unfold newLine
  cases pretty with
  | false => exact h
  | true => exact ⟨rfl, rfl⟩

theorem Fresh.ready {p : JsonParser} {space : List Byte} {c : Byte} {token : JsonToken}
    (h : p.Fresh (space ++ ([c] ++ rest))) (hspace : ∀ c ∈ space, isspace c.toInt = true)
    (hc : c ∈ ([0x7B, 0x7D, 0x5B, 0x5D, 0x3A, 0x2C] : List Byte))
    (htoken : punctuation c.toInt = some token) : Ready (space.length + 1) p token rest :=
  .unseen h hspace (.punctuation hc htoken) (by rw [List.length_singleton])

def bracket (type : JsonTokenType) : JsonToken := makeJsonToken type (getTokenTypeString type)

theorem bracket_type (type : JsonTokenType) : (bracket type).type = type := rfl

theorem makeJsonToken_type (type : JsonTokenType) (text : List Byte) :
    (makeJsonToken type text).type = type := rfl

section Elements

def arrayTail (mode : JsonCharsetConversion) (pretty : Bool) (depth : ℕ) (layout : Layout)
    (elements : List Json) (rest : List Byte) : List Byte :=
  elementsText mode pretty (depth + 1) layout elements ++ (newLine pretty depth ++ ([0x5D] ++ rest))

theorem ends_arrayTail (mode : JsonCharsetConversion) (pretty : Bool) (depth : ℕ) (elements : List Json) (rest : List Byte) :
    Ends (arrayTail mode pretty depth .between elements rest) := by
  unfold arrayTail
  cases elements with
  | nil =>
    rw [elementsText, List.nil_append]
    exact ends_newLine ⟨rfl, rfl⟩
  | cons value elements =>
    rw [elementsText, separator]
    exact ⟨rfl, rfl⟩

theorem arrayTail_start (depth : ℕ) (value : Json) (elements : List Json) (rest : List Byte) :
    arrayTail mode pretty depth .start (value :: elements) rest =
      newLine pretty (depth + 1) ++ (text mode pretty (depth + 1) value ++
        arrayTail mode pretty depth .between elements rest) := by
  unfold arrayTail
  rw [elementsText, separator]
  simp only [List.append_assoc]

theorem arrayTail_between (depth : ℕ) (value : Json) (elements : List Json) (rest : List Byte) :
    arrayTail mode pretty depth .between (value :: elements) rest =
      [] ++ ([0x2C] ++ arrayTail mode pretty depth .start (value :: elements) rest) := by
  unfold arrayTail
  rw [elementsText, elementsText, separator, separator]
  simp only [List.append_assoc]
  rfl

/-- The loop over the elements leaves the closing bracket for the parser. -/
theorem jsonGetElements_ok {depth : ℕ} {elements : List Json}
    (ih : ∀ t ∈ elements, Parses mode decode pretty t) :
    ∀ (fuel : ℕ) (done : List Json) {p : JsonParser},
    p.Fresh (arrayTail mode pretty depth .start elements rest) →
    3 * (arrayTail mode pretty depth .start elements rest).length + 8 ≤ fuel →
    ∃ p', jsonGetElements fuel p done = .ok (some (done ++ Json.mapElements (rereading decode) elements), p') ∧
      Ready 0 p' (bracket .JSON_TOKEN_ARRAY_END) rest := by
  induction elements with
  | nil =>
    intro fuel done p h hfuel
    obtain ⟨fuel, rfl⟩ : ∃ m, fuel = m + 1 := Nat.exists_eq_succ_of_ne_zero (by omega)
    unfold arrayTail at h hfuel
    rw [elementsText, List.nil_append] at h hfuel
    rw [List.length_append, List.length_append, List.length_singleton] at hfuel
    have hready := h.ready (isspace_newLine pretty depth) (by decide)
      (rfl : _ = some (bracket .JSON_TOKEN_ARRAY_END))
    obtain ⟨p', hrun, h'⟩ := hready.jsonLookaheadToken
      (show (newLine pretty depth).length + 1 + 1 < fuel by omega)
    refine ⟨p', ?_, h' 0⟩
    rw [jsonGetElements, hrun, Exec.ok_bind, Json.mapElements, List.append_nil]
    rfl
  | cons value elements ihs =>
    intro fuel done p h hfuel
    obtain ⟨fuel, rfl⟩ : ∃ m, fuel = m + 1 := Nat.exists_eq_succ_of_ne_zero (by omega)
    obtain ⟨head, tail, token, htext, hpos, hscans, htype, hparse⟩ :=
      ih value List.mem_cons_self (ends_arrayTail mode pretty depth elements rest)
    rw [arrayTail_start, htext, List.append_assoc head] at h hfuel
    rw [List.length_append, List.length_append] at hfuel
    have hready : Ready ((newLine pretty (depth + 1)).length + head.length) p token
        (tail ++ arrayTail mode pretty depth .between elements rest) :=
      .unseen h (isspace_newLine pretty (depth + 1)) hscans le_rfl
    obtain ⟨p₁, hrun₁, hready₁⟩ := hready.jsonLookaheadToken
      (show (newLine pretty (depth + 1)).length + head.length + 1 < fuel by omega)
    obtain ⟨p₂, hrun₂, hfresh₂⟩ := hparse (hready₁ 0) (show 0 + 3 ≤ fuel by omega) (by omega)
    rw [jsonGetElements, hrun₁, Exec.ok_bind]
    dsimp only
    rw [if_pos htype, hrun₂, Exec.ok_bind]
    dsimp only
    rw [Json.mapElements]
    cases elements with
    | nil =>
      unfold arrayTail at hfresh₂ hfuel
      rw [elementsText, List.nil_append] at hfresh₂ hfuel
      simp only [List.length_append, List.length_singleton] at hfuel
      have hclose := hfresh₂.ready (isspace_newLine pretty depth) (by decide)
        (rfl : _ = some (bracket .JSON_TOKEN_ARRAY_END))
      obtain ⟨p', hrun', h'⟩ := hclose.jsonLookaheadToken
        (show (newLine pretty depth).length + 1 + 1 < fuel by omega)
      refine ⟨p', ?_, h' 0⟩
      rw [hrun', Exec.ok_bind, Json.mapElements]
      rfl
    | cons next elements =>
      rw [arrayTail_between, List.nil_append] at hfuel
      simp only [List.length_append, List.length_singleton] at hfuel
      rw [arrayTail_between] at hfresh₂
      have hcomma := hfresh₂.ready (by simp) (by decide)
        (rfl : _ = some (bracket .JSON_TOKEN_COMMA))
      obtain ⟨p₃, hrun₃, hready₃⟩ := hcomma.jsonLookaheadToken (show 0 + 1 + 1 < fuel by omega)
      obtain ⟨p₄, hrun₄, hfresh₄⟩ := (hready₃ 0).jsonMatchToken (show 0 + 1 < fuel by omega)
        (rfl : _ = JsonTokenType.JSON_TOKEN_COMMA)
      obtain ⟨p', hrun', h'⟩ := ihs (fun t ht => ih t (List.mem_cons_of_mem _ ht)) fuel
        (done ++ [value.map (rereading decode)]) hfresh₄ (by omega)
      refine ⟨p', ?_, h'⟩
      rw [hrun₃, Exec.ok_bind]
      dsimp only
      rw [if_pos (bracket_type _), hrun₄, Exec.ok_bind]
      dsimp only
      rw [hrun', List.append_assoc, List.singleton_append]

theorem parses_array {elements : List Json} (ih : ∀ t ∈ elements, Parses mode decode pretty t) :
    Parses mode decode pretty (.array elements) := by
  intro depth rest _
  refine ⟨[0x5B], elementsText mode pretty (depth + 1) .start elements ++ newLine pretty depth ++ [0x5D],
    bracket .JSON_TOKEN_ARRAY_START, ?_, le_rfl, .punctuation (by decide) rfl, by decide, ?_⟩
  · rw [text]
    simp only [List.append_assoc]
    rfl
  · intro n p fuel hready hfuel hlength
    have htail : elementsText mode pretty (depth + 1) .start elements ++ newLine pretty depth ++
        [0x5D] ++ rest = arrayTail mode pretty depth .start elements rest := by
      unfold arrayTail
      simp only [List.append_assoc]
    rw [htail] at hready hlength
    obtain ⟨fuel, rfl⟩ : ∃ m, fuel = m + 2 := ⟨fuel - 2, by omega⟩
    obtain ⟨p₁, hrun₁, hready₁⟩ := hready.jsonLookaheadToken (show n + 1 < fuel + 1 by omega)
    obtain ⟨p₂, hrun₂, hfresh₂⟩ := (hready₁ 0).jsonMatchToken (show 0 + 1 < fuel by omega)
      (rfl : _ = JsonTokenType.JSON_TOKEN_ARRAY_START)
    obtain ⟨p₃, hrun₃, hready₃⟩ := jsonGetElements_ok ih fuel [] hfresh₂ (by omega)
    obtain ⟨p', hrun', h'⟩ := hready₃.jsonMatchToken (show 0 + 1 < fuel by omega)
      (rfl : _ = JsonTokenType.JSON_TOKEN_ARRAY_END)
    refine ⟨p', ?_, h'⟩
    rw [jsonParse, hrun₁, Exec.ok_bind]
    show jsonGetArray (fuel + 1) p₁ = _
    rw [jsonGetArray, hrun₂, Exec.ok_bind]
    dsimp only
    rw [if_neg (by decide), hrun₃, Exec.ok_bind]
    dsimp only
    rw [hrun', Exec.ok_bind]
    dsimp only
    rw [if_neg (by decide), Json.map]
    rfl

end Elements

section Properties

def objectTail (mode : JsonCharsetConversion) (pretty : Bool) (depth : ℕ) (layout : Layout)
    (properties : List (CString × Json)) (rest : List Byte) : List Byte :=
  propertiesText mode pretty (depth + 1) layout properties ++
    (newLine pretty depth ++ ([0x7D] ++ rest))

theorem ends_objectTail (mode : JsonCharsetConversion) (pretty : Bool) (depth : ℕ)
    (properties : List (CString × Json)) (rest : List Byte) :
    Ends (objectTail mode pretty depth .between properties rest) := by
  unfold objectTail
  cases properties with
  | nil =>
    rw [propertiesText, List.nil_append]
    exact ends_newLine ⟨rfl, rfl⟩
  | cons q properties =>
    obtain ⟨key, value⟩ := q
    rw [propertiesText, separator]
    exact ⟨rfl, rfl⟩

def colonSpace (pretty : Bool) : List Byte := if pretty then [0x20] else []

theorem isspace_colonSpace (pretty : Bool) : ∀ c ∈ colonSpace pretty, isspace c.toInt = true := by
  cases pretty <;> decide

theorem objectTail_start (depth : ℕ) (key : CString) (value : Json)
    (properties : List (CString × Json)) (rest : List Byte) :
    objectTail mode pretty depth .start ((key, value) :: properties) rest =
      newLine pretty (depth + 1) ++ (quoted mode key ++ ([] ++ ([0x3A] ++ (colonSpace pretty ++
        (text mode pretty (depth + 1) value ++
          objectTail mode pretty depth .between properties rest))))) := by
  unfold objectTail
  rw [propertiesText, separator, keyText]
  have hcolon : (if pretty = true then ascii ": " else ascii ":") = [0x3A] ++ colonSpace pretty := by
    cases pretty <;> rfl
  rw [hcolon]
  simp only [List.append_assoc, List.nil_append]

theorem objectTail_between (depth : ℕ) (key : CString) (value : Json)
    (properties : List (CString × Json)) (rest : List Byte) :
    objectTail mode pretty depth .between ((key, value) :: properties) rest =
      [] ++ ([0x2C] ++ objectTail mode pretty depth .start ((key, value) :: properties) rest) := by
  unfold objectTail
  rw [propertiesText, propertiesText, separator, separator]
  simp only [List.append_assoc]
  rfl

/-- The loop over the properties leaves the closing bracket for the parser. -/
theorem jsonGetProperties_ok {depth : ℕ} {properties : List (CString × Json)}
    (hkeys : ∀ q ∈ properties, StringRereads mode decode q.1)
    (ih : ∀ q ∈ properties, Parses mode decode pretty q.2) :
    ∀ (fuel : ℕ) (done : List (CString × Json)) {p : JsonParser},
    p.Fresh (objectTail mode pretty depth .start properties rest) →
    3 * (objectTail mode pretty depth .start properties rest).length + 8 ≤ fuel →
    ∃ p', jsonGetProperties fuel p done =
        .ok (some (done ++ Json.mapProperties (rereading decode) properties), p') ∧
      Ready 0 p' (bracket .JSON_TOKEN_OBJECT_END) rest := by
  induction properties with
  | nil =>
    intro fuel done p h hfuel
    obtain ⟨fuel, rfl⟩ : ∃ m, fuel = m + 1 := Nat.exists_eq_succ_of_ne_zero (by omega)
    unfold objectTail at h hfuel
    rw [propertiesText, List.nil_append] at h hfuel
    rw [List.length_append, List.length_append, List.length_singleton] at hfuel
    have hready := h.ready (isspace_newLine pretty depth) (by decide)
      (rfl : _ = some (bracket .JSON_TOKEN_OBJECT_END))
    obtain ⟨p', hrun, h'⟩ := hready.jsonLookaheadToken
      (show (newLine pretty depth).length + 1 + 1 < fuel by omega)
    refine ⟨p', ?_, h' 0⟩
    rw [jsonGetProperties, hrun, Exec.ok_bind, Json.mapProperties, List.append_nil]
    rfl
  | cons q properties ihs =>
    obtain ⟨key, value⟩ := q
    intro fuel done p h hfuel
    obtain ⟨fuel, rfl⟩ : ∃ m, fuel = m + 1 := Nat.exists_eq_succ_of_ne_zero (by omega)
    obtain ⟨hdecodes, hroom⟩ := hkeys (key, value) List.mem_cons_self
    obtain ⟨head, tail, token, htext, hpos, hscans, -, hparse⟩ := ih (key, value) List.mem_cons_self
      (ends_objectTail mode pretty depth properties rest)
    rw [objectTail_start, htext, List.append_assoc head] at h hfuel
    simp only [List.length_append, List.length_singleton, List.length_nil] at hfuel
    -- the key, the colon and the first token of the value
    have hkey := Ready.unseen h (isspace_newLine pretty (depth + 1)) (.string hdecodes hroom) le_rfl
    obtain ⟨p₁, hrun₁, hready₁⟩ := hkey.jsonLookaheadToken
      (show (newLine pretty (depth + 1)).length + (quoted mode key).length + 1 < fuel by omega)
    obtain ⟨p₂, hrun₂, hfresh₂⟩ := (hready₁ 0).jsonMatchToken (show 0 + 1 < fuel by omega)
      (rfl : _ = JsonTokenType.JSON_TOKEN_STRING)
    have hcolon := hfresh₂.ready (by simp) (by decide) (rfl : _ = some (bracket .JSON_TOKEN_COLON))
    obtain ⟨p₃, hrun₃, hfresh₃⟩ := hcolon.jsonMatchToken (show 0 + 1 + 1 < fuel by omega)
      (rfl : _ = JsonTokenType.JSON_TOKEN_COLON)
    have hready : Ready ((colonSpace pretty).length + head.length) p₃ token
        (tail ++ objectTail mode pretty depth .between properties rest) :=
      .unseen hfresh₃ (isspace_colonSpace pretty) hscans le_rfl
    obtain ⟨p₄, hrun₄, hfresh₄⟩ := hparse hready
      (show (colonSpace pretty).length + head.length + 3 ≤ fuel by omega)
      (by rw [List.length_append]; omega)
    rw [jsonGetProperties, hrun₁, Exec.ok_bind]
    dsimp only
    rw [if_pos (makeJsonToken_type _ _), hrun₂, Exec.ok_bind]
    dsimp only
    rw [hrun₃, Exec.ok_bind]
    dsimp only
    rw [if_neg (by decide), hrun₄, Exec.ok_bind]
    dsimp only
    have hname : (makeJsonToken .JSON_TOKEN_STRING (decode key).bytes).text = decode key :=
      ofBytes_bytes (decode key)
    rw [Json.mapProperties, hname]
    cases properties with
    | nil =>
      unfold objectTail at hfresh₄ hfuel
      rw [propertiesText, List.nil_append] at hfresh₄ hfuel
      simp only [List.length_append, List.length_singleton] at hfuel
      have hclose := hfresh₄.ready (isspace_newLine pretty depth) (by decide)
        (rfl : _ = some (bracket .JSON_TOKEN_OBJECT_END))
      obtain ⟨p', hrun', h'⟩ := hclose.jsonLookaheadToken
        (show (newLine pretty depth).length + 1 + 1 < fuel by omega)
      refine ⟨p', ?_, h' 0⟩
      rw [hrun', Exec.ok_bind, Json.mapProperties]
      rfl
    | cons next properties =>
      obtain ⟨nextKey, nextValue⟩ := next
      rw [objectTail_between, List.nil_append] at hfuel
      simp only [List.length_append, List.length_singleton] at hfuel
      rw [objectTail_between] at hfresh₄
      have hcomma := hfresh₄.ready (by simp) (by decide)
        (rfl : _ = some (bracket .JSON_TOKEN_COMMA))
      obtain ⟨p₅, hrun₅, hready₅⟩ := hcomma.jsonLookaheadToken (show 0 + 1 + 1 < fuel by omega)
      obtain ⟨p₆, hrun₆, hfresh₆⟩ := (hready₅ 0).jsonMatchToken (show 0 + 1 < fuel by omega)
        (rfl : _ = JsonTokenType.JSON_TOKEN_COMMA)
      obtain ⟨p', hrun', h'⟩ := ihs (fun q hq => hkeys q (List.mem_cons_of_mem _ hq))
        (fun q hq => ih q (List.mem_cons_of_mem _ hq)) fuel
        (done ++ [(decode key, value.map (rereading decode))]) hfresh₆ (by omega)
      refine ⟨p', ?_, h'⟩
      rw [hrun₅, Exec.ok_bind]
      dsimp only
      rw [if_pos (bracket_type _), hrun₆, Exec.ok_bind]
      dsimp only
      rw [hrun', List.append_assoc, List.singleton_append]
      rfl

theorem parses_object {properties : List (CString × Json)}
    (hkeys : ∀ q ∈ properties, StringRereads mode decode q.1)
    (ih : ∀ q ∈ properties, Parses mode decode pretty q.2) :
    Parses mode decode pretty (.object properties) := by
  intro depth rest _
  refine ⟨[0x7B],
    propertiesText mode pretty (depth + 1) .start properties ++ newLine pretty depth ++ [0x7D],
    bracket .JSON_TOKEN_OBJECT_START, ?_, le_rfl, .punctuation (by decide) rfl, by decide, ?_⟩
  · rw [text]
    simp only [List.append_assoc]
    rfl
  · intro n p fuel hready hfuel hlength
    have htail : propertiesText mode pretty (depth + 1) .start properties ++ newLine pretty depth ++
        [0x7D] ++ rest = objectTail mode pretty depth .start properties rest := by
      unfold objectTail
      simp only [List.append_assoc]
    rw [htail] at hready hlength
    obtain ⟨fuel, rfl⟩ : ∃ m, fuel = m + 2 := ⟨fuel - 2, by omega⟩
    obtain ⟨p₁, hrun₁, hready₁⟩ := hready.jsonLookaheadToken (show n + 1 < fuel + 1 by omega)
    obtain ⟨p₂, hrun₂, hfresh₂⟩ := (hready₁ 0).jsonMatchToken (show 0 + 1 < fuel by omega)
      (rfl : _ = JsonTokenType.JSON_TOKEN_OBJECT_START)
    obtain ⟨p₃, hrun₃, hready₃⟩ := jsonGetProperties_ok hkeys ih fuel [] hfresh₂ (by omega)
    obtain ⟨p', hrun', h'⟩ := hready₃.jsonMatchToken (show 0 + 1 < fuel by omega)
      (rfl : _ = JsonTokenType.JSON_TOKEN_OBJECT_END)
    refine ⟨p', ?_, h'⟩
    rw [jsonParse, hrun₁, Exec.ok_bind]
    show jsonGetObject (fuel + 1) p₁ = _
    rw [jsonGetObject, hrun₂, Exec.ok_bind]
    dsimp only
    rw [if_neg (by decide), hrun₃, Exec.ok_bind]
    dsimp only
    rw [hrun', Exec.ok_bind]
    dsimp only
    rw [if_neg (by decide), Json.map]
    rfl

end Properties

theorem parses {t : Json} (h : t.All (ScalarRereads mode decode) (StringRereads mode decode)) :
    Parses mode decode pretty t := by
  induction t using Json.parts_induction with
  | scalar s =>
    cases h with
    | scalar hs =>
      cases s with
      | number n => exact parses_number (BitVec.le_toInt n) (BitVec.toInt_lt) rfl (by
          rw [BitVec.ofInt_toInt]
          rfl)
      | int64 n =>
        obtain ⟨hlo, hhi⟩ := hs
        exact parses_number hlo hhi rfl rfl
      | double d => exact absurd hs not_false
      | string s => exact parses_string hs
      | boolean b => exact parses_boolean b
      | null => exact parses_null
  | object properties ih =>
    cases h with
    | object hkeys hvalues => exact parses_object hkeys fun q hq => ih q hq (hvalues q hq)
  | array elements ih =>
    cases h with
    | array helements => exact parses_array fun t ht => ih t ht (helements t ht)

end JsonParser

/-- What was printed parses, and gives what printing and parsing makes of the tree. -/
theorem jsonParse_jsonPrint {mode : JsonCharsetConversion} {decode : CString → CString}
    {pretty : Bool} {t : Json} (h : t.All (ScalarRereads mode decode) (StringRereads mode decode))
    (hfits : (text mode pretty 0 t).length ≤ JSON_BUF_LIMIT) {fuel : ℕ}
    (hfuel : 3 * (text mode pretty 0 t).length + 13 ≤ fuel) :
    jsonParseUnterminatedString fuel ((bufferPrinter mode pretty).jsonPrint t).customObject.data =
      .ok (.ok (t.map (rereading decode))) := by
  rw [(jsonPrint_data hfits).1]
  have hparses : JsonParser.Parses mode decode pretty t := JsonParser.parses h
  have hends : Ends [] := ⟨by decide, by decide⟩
  obtain ⟨head, tail, token, htext, hpos, hscans, -, hparse⟩ := @hparses 0 [] hends
  have hlength : (text mode pretty 0 t).length = head.length + tail.length := by
    rw [htext, List.length_append]
  have hfresh : (makeJsonParser (text mode pretty 0 t)).Fresh ([] ++ (head ++ (tail ++ []))) := by
    refine ⟨rfl, rfl, ?_⟩
    rw [List.nil_append, List.append_nil, ← htext]
    exact ⟨noNul_text t 0, .inl ⟨rfl, rfl⟩⟩
  have hready : JsonParser.Ready head.length (makeJsonParser (text mode pretty 0 t)) token
      (tail ++ []) := .unseen hfresh (by simp) hscans (by simp)
  obtain ⟨p₁, hrun₁, hfresh₁⟩ := hparse hready (show head.length + 3 ≤ fuel by omega)
    (by rw [List.append_nil]; omega)
  have hfresh₁' : p₁.Fresh ([] ++ ([] ++ [])) := hfresh₁
  have heof : JsonParser.Ready 0 p₁ (makeJsonToken .JSON_TOKEN_EOF (ascii "EOF")) [] :=
    .unseen hfresh₁' (by simp) (.eof rfl) le_rfl
  obtain ⟨p₂, hrun₂, -⟩ := heof.jsonMatchToken (show 0 + 1 < fuel by omega)
    (rfl : _ = JsonTokenType.JSON_TOKEN_EOF)
  unfold jsonParseUnterminatedString
  rw [hrun₁, Exec.ok_bind]
  dsimp only
  rw [hrun₂]
  rfl

end ZoweCommon
