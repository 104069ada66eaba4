import ZoweCommon.Json.Printer

/-! The text of a JSON value, and that the printer writes it as long as the buffer may grow. -/
namespace ZoweCommon

open CLibrary CString

/-- The most that a buffer ever holds. -/
def JSON_BUF_LIMIT : ℕ := 2 ^ 30

namespace JsonBuffer

theorem size_le (buf : JsonBuffer) : buf.size ≤ JSON_BUF_LIMIT := by
  obtain ⟨k, hk, hsize⟩ := buf.size_eq
  rw [hsize]
  calc JSON_BUF_DEFAULT_SIZE * 2 ^ k ≤ JSON_BUF_DEFAULT_SIZE * 2 ^ 20 :=
        Nat.mul_le_mul_left _ (Nat.pow_le_pow_right (by omega) hk)
    _ = JSON_BUF_LIMIT := rfl

/-- A buffer that may not be doubled is as large as can be. -/
theorem size_eq_limit {buf : JsonBuffer} (h : buf.size > INT32_MAX / 2) :
    buf.size = JSON_BUF_LIMIT := by
  obtain ⟨k, hk, hsize⟩ := buf.size_eq
  rcases Nat.lt_or_eq_of_le hk with hlt | rfl
  · have hle : buf.size ≤ JSON_BUF_DEFAULT_SIZE * 2 ^ 19 := by
      rw [hsize]
      exact Nat.mul_le_mul_left _ (Nat.pow_le_pow_right (by omega) (by omega))
    exact absurd hle (by unfold INT32_MAX at h; unfold JSON_BUF_DEFAULT_SIZE; omega)
  · exact hsize

@[simp] theorem makeRoom_data (buf : JsonBuffer) (len : ℕ) :
    (buf.makeRoom len).data = buf.data := by
  induction buf using makeRoom.induct len with
  | case1 buf hlt h => rw [makeRoom, if_pos hlt, dif_pos h]
  | case2 buf hlt h ih => rw [makeRoom, if_pos hlt, dif_neg h, ih]; rfl
  | case3 buf hge => rw [makeRoom, if_neg hge]

theorem le_size_makeRoom {buf : JsonBuffer} {len : ℕ} (h : buf.data.length + len ≤ JSON_BUF_LIMIT) :
    buf.data.length + len ≤ (buf.makeRoom len).size := by
  induction buf using makeRoom.induct len with
  | case1 buf hlt hlimit =>
    have hsize := size_eq_limit hlimit
    omega
  | case2 buf hlt hlimit ih =>
    rw [makeRoom, if_pos hlt, dif_neg hlimit]
    exact ih h
  | case3 buf hge =>
    have hle := buf.len_le
    rw [makeRoom, if_neg hge]
    omega

end JsonBuffer

/-! The text -/

namespace JsonPrinter

/-- A string as the UTF-8 mode writes it. -/
def escapeUtf8 : List Byte → List Byte
  | [] => []
  | c :: text =>
    if needsEscape (UTF8_GET_NEXT_CHAR c).1 then
      escapeSequence (UTF8_GET_NEXT_CHAR c).1 ++ escapeUtf8 ((c :: text).drop (UTF8_GET_NEXT_CHAR c).2)
    else
      (c :: text).take (UTF8_GET_NEXT_CHAR c).2 ++
        escapeUtf8 ((c :: text).drop (UTF8_GET_NEXT_CHAR c).2)
termination_by text => text.length
decreasing_by
  all_goals
    have := one_le_width c
    simp only [List.length_drop, List.length_cons]
    omega

def escape : JsonCharsetConversion → List Byte → List Byte
  | .JSON_MODE_NATIVE_CHARSET, text => text.flatMap escapeNative
  | .JSON_MODE_CONVERT_TO_UTF8, text => escapeUtf8 text

/-- Where the printer stands: at the very beginning, after an opening bracket, after a value,
or before a closing bracket. -/
inductive Layout
  | first
  | start
  | between
  | finish
  deriving DecidableEq

def newLine (pretty : Bool) (depth : ℕ) : List Byte :=
  if pretty then ascii "\n" ++ (List.replicate depth indentString).flatten else []

/-- What separates a value from what was written before. -/
def separator (pretty : Bool) (depth : ℕ) : Layout → List Byte
  | .first => []
  | .start => newLine pretty depth
  | .between => ascii "," ++ newLine pretty depth
  | .finish => newLine pretty depth

def quoted (mode : JsonCharsetConversion) (s : CString) : List Byte :=
  ascii "\"" ++ escape mode s.bytes ++ ascii "\""

def keyText (mode : JsonCharsetConversion) (pretty : Bool) : Option CString → List Byte
  | none => []
  | some key => quoted mode key ++ if pretty then ascii ": " else ascii ":"

def scalarText (mode : JsonCharsetConversion) : JsonScalar → List Byte
  | .number n => snprintf 64 (formatD n.toInt)
  | .int64 n => snprintf 64 (formatD n.toInt)
  | .double d => snprintf 64 (formatF d)
  | .string s => quoted mode s
  | .boolean b => if b then ascii "true" else ascii "false"
  | .null => ascii "null"

mutual

/-- The text of a value whose lines are indented to a depth. -/
def text (mode : JsonCharsetConversion) (pretty : Bool) (depth : ℕ) : Json → List Byte
  | .scalar s => scalarText mode s
  | .object properties =>
    ascii "\x7b" ++ propertiesText mode pretty (depth + 1) .start properties ++
      newLine pretty depth ++ ascii "\x7d"
  | .array elements =>
    ascii "[" ++ elementsText mode pretty (depth + 1) .start elements ++
      newLine pretty depth ++ ascii "]"

def propertiesText (mode : JsonCharsetConversion) (pretty : Bool) (depth : ℕ) (layout : Layout) :
    List (CString × Json) → List Byte
  | [] => []
  | (key, value) :: properties =>
    separator pretty depth layout ++ keyText mode pretty (some key) ++
      text mode pretty depth value ++ propertiesText mode pretty depth .between properties

def elementsText (mode : JsonCharsetConversion) (pretty : Bool) (depth : ℕ) (layout : Layout) :
    List Json → List Byte
  | [] => []
  | value :: elements =>
    separator pretty depth layout ++ text mode pretty depth value ++
      elementsText mode pretty depth .between elements

end

/-! No null byte is written -/

theorem noNul_escapeNative {c : Byte} (h : c ≠ 0) : NoNul (escapeNative c) := by
  unfold escapeNative
  split_ifs
  · decide
  · decide
  · exact (NoNul.nil.cons h).cons (by decide)
  · exact NoNul.nil.cons h

theorem noNul_escapeSequence (utf8Char : BitVec 32) : NoNul (escapeSequence utf8Char) := by
  unfold escapeSequence
  split_ifs
  · decide
  · decide
  · have hall : NoNul (ascii "\\u" ++ formatX 4 utf8Char.toNat) :=
      NoNul.append (by decide) (noNul_formatX _ _)
    exact hall.take ESCAPE_LEN

theorem noNul_escapeUtf8 (text : List Byte) (h : NoNul text) : NoNul (escapeUtf8 text) := by
  induction text using escapeUtf8.induct with
  | case1 =>
    rw [escapeUtf8]
    exact NoNul.nil
  | case2 c text hescape ih =>
    rw [escapeUtf8, if_pos hescape]
    exact (noNul_escapeSequence _).append (ih (h.drop _))
  | case3 c text hescape ih =>
    rw [escapeUtf8, if_neg hescape]
    exact (h.take _).append (ih (h.drop _))

theorem noNul_quoted (mode : JsonCharsetConversion) (s : CString) : NoNul (quoted mode s) := by
  have hbody : NoNul (escape mode s.bytes) := by
    cases mode with
    | JSON_MODE_NATIVE_CHARSET =>
      intro b hb
      obtain ⟨c, hc, hb⟩ := List.mem_flatMap.mp hb
      exact noNul_escapeNative (s.noNul c hc) b hb
    | JSON_MODE_CONVERT_TO_UTF8 => exact noNul_escapeUtf8 s.bytes s.noNul
  unfold quoted
  exact (NoNul.append (by decide) hbody).append (by decide)

theorem noNul_newLine (pretty : Bool) (depth : ℕ) : NoNul (newLine pretty depth) := by
  unfold newLine
  cases pretty with
  | false => exact NoNul.nil
  | true =>
    apply NoNul.append (by decide)
    intro b hb
    obtain ⟨l, hl, hb⟩ := List.mem_flatten.mp hb
    rw [List.eq_of_mem_replicate hl] at hb
    have hall : NoNul indentString := by decide
    exact hall b hb

theorem noNul_separator (pretty : Bool) (depth : ℕ) (layout : Layout) :
    NoNul (separator pretty depth layout) := by
  cases layout with
  | first => exact NoNul.nil
  | start => exact noNul_newLine pretty depth
  | between => exact NoNul.append (by decide) (noNul_newLine pretty depth)
  | finish => exact noNul_newLine pretty depth

theorem noNul_scalarText (mode : JsonCharsetConversion) (s : JsonScalar) :
    NoNul (scalarText mode s) := by
  cases s with
  | number n => exact noNul_snprintf 64 (noNul_formatD _)
  | int64 n => exact noNul_snprintf 64 (noNul_formatD _)
  | double d => exact noNul_snprintf 64 (noNul_formatF _)
  | string s => exact noNul_quoted mode s
  | boolean b =>
    show NoNul (if b then ascii "true" else ascii "false")
    cases b <;> decide
  | null =>
    show NoNul (ascii "null")
    decide

section NoNul

variable {mode : JsonCharsetConversion} {pretty : Bool} {depth : ℕ}

theorem noNul_propertiesText {properties : List (CString × Json)}
    (ih : ∀ q ∈ properties, ∀ depth, NoNul (text mode pretty depth q.2)) :
    ∀ layout, NoNul (propertiesText mode pretty depth layout properties) := by
  induction properties with
  | nil =>
    intro layout
    rw [propertiesText]
    exact NoNul.nil
  | cons q properties ihs =>
    obtain ⟨key, value⟩ := q
    intro layout
    have hkey : NoNul (keyText mode pretty (some key)) := by
      rw [keyText]
      exact (noNul_quoted mode key).append (by cases pretty <;> decide)
    have hvalue := ih (key, value) List.mem_cons_self depth
    have hrest := ihs (fun q hq => ih q (List.mem_cons_of_mem _ hq)) .between
    rw [propertiesText]
    exact (((noNul_separator pretty depth layout).append hkey).append hvalue).append hrest

theorem noNul_elementsText {elements : List Json}
    (ih : ∀ t ∈ elements, ∀ depth, NoNul (text mode pretty depth t)) :
    ∀ layout, NoNul (elementsText mode pretty depth layout elements) := by
  induction elements with
  | nil =>
    intro layout
    rw [elementsText]
    exact NoNul.nil
  | cons value elements ihs =>
    intro layout
    have hvalue := ih value List.mem_cons_self depth
    have hrest := ihs (fun t ht => ih t (List.mem_cons_of_mem _ ht)) .between
    rw [elementsText]
    exact ((noNul_separator pretty depth layout).append hvalue).append hrest

theorem noNul_text (t : Json) : ∀ depth, NoNul (text mode pretty depth t) := by
  induction t using Json.parts_induction with
  | scalar s =>
    intro depth
    rw [text]
    exact noNul_scalarText mode s
  | object properties ih =>
    intro depth
    have hproperties : NoNul (propertiesText mode pretty (depth + 1) .start properties) :=
      noNul_propertiesText ih .start
    rw [text]
    exact ((NoNul.append (by decide) hproperties).append (noNul_newLine pretty depth)).append (by decide)
  | array elements ih =>
    intro depth
    have helements : NoNul (elementsText mode pretty (depth + 1) .start elements) :=
      noNul_elementsText ih .start
    rw [text]
    exact ((NoNul.append (by decide) helements).append (noNul_newLine pretty depth)).append (by decide)

end NoNul

/-! Printing writes the text -/

structure Stands (p : JsonPrinter) (mode : JsonCharsetConversion) (pretty : Bool) (depth : ℕ)
    (layout : Layout) (written : List Byte) : Prop where
  mode : p.mode = mode
  prettyPrint : p.prettyPrint = pretty
  depth : p.depth = depth
  isFirstLine : p.isFirstLine = decide (layout = .first)
  isStart : p.isStart = decide (layout = .first ∨ layout = .start)
  isEnd : p.isEnd = decide (layout = .finish)
  ioErrorFlag : p.ioErrorFlag = false
  data : p.customObject.data = written

variable {p : JsonPrinter} {mode : JsonCharsetConversion} {pretty : Bool} {depth : ℕ}
  {layout : Layout} {written : List Byte}

theorem Stands.write (h : p.Stands mode pretty depth layout written) (text : List Byte)
    (hfits : (written ++ text).length ≤ JSON_BUF_LIMIT) :
    (p.jsonWriteBufferInternal text).Stands mode pretty depth layout (written ++ text) := by
  have hroom : (p.customObject.makeRoom text.length).data.length + text.length ≤
      (p.customObject.makeRoom text.length).size := by
    rw [JsonBuffer.makeRoom_data]
    apply JsonBuffer.le_size_makeRoom
    rwa [h.data, ← List.length_append]
  have hwrite : p.jsonWriteBufferInternal text =
      { p with customObject := (p.customObject.makeRoom text.length).append text hroom } := by
    have hgo : ¬p.ioErrorFlag = true := by simp [h.ioErrorFlag]
    unfold jsonWriteBufferInternal writeToBuffer
    rw [if_neg hgo]
    exact dif_pos hroom
  rw [hwrite]
  refine ⟨h.mode, h.prettyPrint, h.depth, h.isFirstLine, h.isStart, h.isEnd, h.ioErrorFlag, ?_⟩
  show (p.customObject.makeRoom text.length).data ++ text = _
  rw [JsonBuffer.makeRoom_data, h.data]

theorem Stands.writeChunk (h : p.Stands mode pretty depth layout written) (chunk : List Byte)
    (hfits : (written ++ chunk).length ≤ JSON_BUF_LIMIT) :
    (p.writeChunk chunk).Stands mode pretty depth layout (written ++ chunk) := by
  unfold JsonPrinter.writeChunk
  by_cases hchunk : chunk.length > 0
  · rw [if_pos hchunk]
    exact h.write _ hfits
  · rw [if_neg hchunk]
    have hnil : chunk = [] := List.length_eq_zero_iff.mp (by omega)
    rw [hnil, List.append_nil]
    exact h

theorem Stands.writeEscapedFrom (text : List Byte) :
    ∀ {p : JsonPrinter} {written : List Byte} (chunk : List Byte), p.Stands mode pretty depth layout written →
    (written ++ chunk ++ escapeUtf8 text).length ≤ JSON_BUF_LIMIT →
    (p.writeBufferWithEscapingFrom chunk text).Stands mode pretty depth layout
      (written ++ chunk ++ escapeUtf8 text) := by
  induction text using escapeUtf8.induct with
  | case1 =>
    intro p written chunk h hfits
    rw [escapeUtf8, List.append_nil] at hfits ⊢
    rw [writeBufferWithEscapingFrom]
    exact h.writeChunk chunk hfits
  | case2 c text hescape ih =>
    intro p written chunk h hfits
    have htext : escapeUtf8 (c :: text) =
        escapeSequence (UTF8_GET_NEXT_CHAR c).1 ++ escapeUtf8 ((c :: text).drop (UTF8_GET_NEXT_CHAR c).2) := by
      rw [escapeUtf8]
      exact if_pos hescape
    rw [htext] at hfits ⊢
    rw [writeBufferWithEscapingFrom]
    dsimp only
    rw [if_pos hescape]
    have hchunk := h.writeChunk chunk
      (by simp only [List.length_append] at hfits ⊢; omega)
    have hsequence := hchunk.write (escapeSequence (UTF8_GET_NEXT_CHAR c).1)
      (by simp only [List.length_append] at hfits ⊢; omega)
    have hrest := ih [] hsequence
      (by simp only [List.length_append, List.length_nil] at hfits ⊢; omega)
    simpa only [List.append_assoc, List.append_nil, List.nil_append] using hrest
  | case3 c text hescape ih =>
    intro p written chunk h hfits
    have htext : escapeUtf8 (c :: text) =
        (c :: text).take (UTF8_GET_NEXT_CHAR c).2 ++ escapeUtf8 ((c :: text).drop (UTF8_GET_NEXT_CHAR c).2) := by
      rw [escapeUtf8]
      exact if_neg hescape
    rw [htext] at hfits ⊢
    rw [writeBufferWithEscapingFrom]
    dsimp only
    rw [if_neg hescape]
    have hrest := ih (chunk ++ (c :: text).take (UTF8_GET_NEXT_CHAR c).2) h
      (by simp only [List.length_append] at hfits ⊢; omega)
    simpa only [List.append_assoc] using hrest

theorem flatMap_escapeNative {s : List Byte} (h : ¬(s.filter isSpecialChar).length > 0) :
    s.flatMap escapeNative = s := by
  have hnone : ∀ c ∈ s, isSpecialChar c = false := by
    intro c hc
    have hnil : s.filter isSpecialChar = [] := List.length_eq_zero_iff.mp (by omega)
    simpa using List.filter_eq_nil_iff.mp hnil c hc
  have hself : ∀ c ∈ s, escapeNative c = [c] := by
    intro c hc
    have hc := hnone c hc
    unfold isSpecialChar at hc
    simp only [Bool.or_eq_false_iff, decide_eq_false_iff_not] at hc
    obtain ⟨⟨⟨hquote, hbackslash⟩, hnewline⟩, hreturn⟩ := hc
    unfold escapeNative
    rw [if_neg hnewline, if_neg hreturn, if_neg (not_or.mpr ⟨hquote, hbackslash⟩)]
  calc s.flatMap escapeNative = s.flatMap fun c => [c] := List.flatMap_congr hself
    _ = s := List.flatMap_singleton' s

theorem Stands.jsonWrite (h : p.Stands mode pretty depth layout written) {text : List Byte}
    (hfits : (written ++ text).length ≤ JSON_BUF_LIMIT) :
    (p.jsonWrite text false).Stands mode pretty depth layout (written ++ text) := by
  have hgo : ¬p.ioErrorFlag = true := by simp [h.ioErrorFlag]
  unfold JsonPrinter.jsonWrite jsonConvertAndWriteBuffer
  rw [if_neg hgo]
  cases p.mode <;> exact h.write _ hfits

theorem Stands.jsonWriteEscaped (h : p.Stands mode pretty depth layout written) {s : List Byte}
    (hfits : (written ++ escape mode s).length ≤ JSON_BUF_LIMIT) :
    (p.jsonWrite s true).Stands mode pretty depth layout (written ++ escape mode s) := by
  have hgo : ¬p.ioErrorFlag = true := by simp [h.ioErrorFlag]
  unfold JsonPrinter.jsonWrite jsonConvertAndWriteBuffer
  rw [if_neg hgo, h.mode]
  cases mode with
  | JSON_MODE_NATIVE_CHARSET =>
    show (p.jsonWriteEscapedString s).Stands _ _ _ _ _
    unfold jsonWriteEscapedString
    rw [escape] at hfits ⊢
    by_cases hspecial : (s.filter isSpecialChar).length > 0
    · rw [if_pos hspecial]
      exact h.write _ hfits
    · rw [if_neg hspecial, flatMap_escapeNative hspecial]
      rw [flatMap_escapeNative hspecial] at hfits
      exact h.write _ hfits
  | JSON_MODE_CONVERT_TO_UTF8 =>
    have hfrom := Stands.writeEscapedFrom s [] h
      (by rwa [List.append_nil])
    rw [List.append_nil] at hfrom
    exact hfrom

/-- Bounds on the length of what is written, from the bound on all of it. -/
theorem fits_left {a b : List Byte} (h : (a ++ b).length ≤ JSON_BUF_LIMIT) :
    a.length ≤ JSON_BUF_LIMIT := by
  rw [List.length_append] at h
  omega

theorem Stands.jsonWriteQuotedString (h : p.Stands mode pretty depth layout written) {s : CString}
    (hfits : (written ++ quoted mode s).length ≤ JSON_BUF_LIMIT) :
    (p.jsonWriteQuotedString s).Stands mode pretty depth layout (written ++ quoted mode s) := by
  unfold quoted at hfits ⊢
  rw [← List.append_assoc, ← List.append_assoc] at hfits ⊢
  have hopen := h.jsonWrite (fits_left (fits_left hfits))
  have hbody := hopen.jsonWriteEscaped (fits_left hfits)
  exact hbody.jsonWrite hfits

theorem Stands.indent (n : ℕ) : ∀ {p : JsonPrinter} {written : List Byte},
    p.Stands mode pretty depth layout written →
    (written ++ (List.replicate n indentString).flatten).length ≤ JSON_BUF_LIMIT →
    ((fun p : JsonPrinter => p.jsonWrite indentString false)^[n] p).Stands mode pretty depth layout
      (written ++ (List.replicate n indentString).flatten) := by
  induction n with
  | zero =>
    intro p written h _
    simpa using h
  | succ n ih =>
    intro p written h hfits
    rw [List.replicate_succ, List.flatten_cons, ← List.append_assoc] at hfits ⊢
    exact ih (h.jsonWrite (fits_left hfits)) hfits

theorem Stands.writeNewLine (h : p.Stands mode pretty depth layout written)
    (hfits : (written ++ newLine pretty depth).length ≤ JSON_BUF_LIMIT) :
    (if p.prettyPrint then (p.jsonWrite (ascii "\n") false).jsonIndent else p).Stands mode pretty
      depth layout (written ++ newLine pretty depth) := by
  rw [h.prettyPrint]
  unfold JsonPrinter.newLine at hfits ⊢
  cases pretty with
  | false => simpa using h
  | true =>
    rw [if_pos rfl] at hfits ⊢
    rw [if_pos rfl]
    rw [← List.append_assoc] at hfits ⊢
    have hbreak := h.jsonWrite (fits_left hfits)
    have hindent := hbreak.indent depth hfits
    unfold jsonIndent
    rw [hbreak.depth]
    exact hindent

/-- After an opening bracket, a value, or the flag that announces a closing bracket, a new line
begins. -/
theorem Stands.jsonNewLine (h : p.Stands mode pretty depth layout written) (hlayout : layout ≠ .first)
    (hfits : (written ++ separator pretty depth layout).length ≤ JSON_BUF_LIMIT) :
    p.jsonNewLine.Stands mode pretty depth .between (written ++ separator pretty depth layout) := by
  unfold JsonPrinter.jsonNewLine
  have hfirst := h.isFirstLine
  have hstart := h.isStart
  have hend := h.isEnd
  cases layout with
  | first => exact absurd rfl hlayout
  | start =>
    have hmid : { p with isStart := false }.Stands mode pretty depth .between written :=
      ⟨h.mode, h.prettyPrint, h.depth, hfirst, rfl, hend, h.ioErrorFlag, h.data⟩
    have hstep : (if p.isEnd = true then { p with isEnd := false }
        else if p.isStart = true then { p with isStart := false }
        else p.jsonWrite (ascii ",") false) = { p with isStart := false } := by
      rw [if_neg (by simp [hend]), if_pos (by simp [hstart])]
    dsimp only
    rw [hstep]
    exact hmid.writeNewLine hfits
  | between =>
    rw [separator, ← List.append_assoc] at hfits ⊢
    have hstep : (if p.isEnd = true then { p with isEnd := false }
        else if p.isStart = true then { p with isStart := false }
        else p.jsonWrite (ascii ",") false) = p.jsonWrite (ascii ",") false := by
      rw [if_neg (by simp [hend]), if_neg (by simp [hstart])]
    dsimp only
    rw [hstep]
    exact (h.jsonWrite (fits_left hfits)).writeNewLine hfits
  | finish =>
    have hmid : { p with isEnd := false }.Stands mode pretty depth .between written :=
      ⟨h.mode, h.prettyPrint, h.depth, hfirst, hstart, rfl, h.ioErrorFlag, h.data⟩
    have hstep : (if p.isEnd = true then { p with isEnd := false }
        else if p.isStart = true then { p with isStart := false }
        else p.jsonWrite (ascii ",") false) = { p with isEnd := false } := by
      rw [if_pos (by simp [hend])]
    dsimp only
    rw [hstep]
    exact hmid.writeNewLine hfits

theorem Stands.jsonWriteKeyAndSemicolon (h : p.Stands mode pretty depth layout written)
    {key : Option CString}
    (hfits : (written ++ keyText mode pretty key).length ≤ JSON_BUF_LIMIT) :
    (p.jsonWriteKeyAndSemicolon key).Stands mode pretty depth layout
      (written ++ keyText mode pretty key) := by
  unfold JsonPrinter.jsonWriteKeyAndSemicolon
  cases key with
  | none =>
    rw [keyText, List.append_nil]
    exact h
  | some key =>
    rw [keyText, ← List.append_assoc] at hfits ⊢
    have hkey := h.jsonWriteQuotedString (fits_left hfits)
    dsimp only
    rw [hkey.prettyPrint]
    cases pretty with
    | false => exact hkey.jsonWrite hfits
    | true => exact hkey.jsonWrite hfits

/-- Where the printer stands after a value without parts. -/
def Layout.next : Layout → Layout
  | .first => .start
  | _ => .between

theorem Stands.jsonStartValue (h : p.Stands mode pretty depth layout written) {key : Option CString}
    (hfits : (written ++ separator pretty depth layout ++ keyText mode pretty key).length ≤
      JSON_BUF_LIMIT) :
    (p.jsonStartValue key).Stands mode pretty depth layout.next
      (written ++ separator pretty depth layout ++ keyText mode pretty key) := by
  unfold JsonPrinter.jsonStartValue
  apply Stands.jsonWriteKeyAndSemicolon ?_ hfits
  by_cases hfirst : layout = .first
  · have hflag : p.isFirstLine = true := by simp [h.isFirstLine, hfirst]
    rw [if_pos hflag, hfirst, separator, List.append_nil]
    have hstart := h.isStart
    have hend := h.isEnd
    rw [hfirst] at hstart hend
    exact ⟨h.mode, h.prettyPrint, h.depth, rfl, hstart, hend, h.ioErrorFlag, h.data⟩
  · have hflag : ¬p.isFirstLine = true := by simp [h.isFirstLine, hfirst]
    have hnext : layout.next = .between := by
      cases layout with
      | first => exact absurd rfl hfirst
      | start => rfl
      | between => rfl
      | finish => rfl
    rw [if_neg hflag, hnext]
    exact h.jsonNewLine hfirst (fits_left hfits)

theorem Stands.jsonStart (h : p.Stands mode pretty depth layout written) {key : Option CString}
    {bracket : List Byte}
    (hfits : (written ++ separator pretty depth layout ++ keyText mode pretty key ++
      bracket).length ≤ JSON_BUF_LIMIT) :
    (jsonStart bracket p key).Stands mode pretty (depth + 1) .start
      (written ++ separator pretty depth layout ++ keyText mode pretty key ++ bracket) := by
  have hgo : ¬p.ioErrorFlag = true := by simp [h.ioErrorFlag]
  unfold JsonPrinter.jsonStart
  rw [if_neg hgo]
  have hopen := (h.jsonStartValue (fits_left hfits)).jsonWrite hfits
  refine ⟨hopen.mode, hopen.prettyPrint, ?_, ?_, rfl, rfl, hopen.ioErrorFlag, hopen.data⟩
  · show _ + 1 = _
    rw [hopen.depth, Nat.cast_add, Nat.cast_one]
  · show _ = false
    rw [hopen.isFirstLine]
    cases layout <;> rfl

theorem Stands.jsonEnd (h : p.Stands mode pretty (depth + 1) layout written)
    (hlayout : layout ≠ .first) {bracket : List Byte}
    (hfits : (written ++ newLine pretty depth ++ bracket).length ≤ JSON_BUF_LIMIT) :
    (jsonEnd bracket p).Stands mode pretty depth .between
      (written ++ newLine pretty depth ++ bracket) := by
  have hgo : ¬p.ioErrorFlag = true := by simp [h.ioErrorFlag]
  unfold JsonPrinter.jsonEnd
  rw [if_neg hgo]
  have hfirst := h.isFirstLine
  have hdepth := h.depth
  have hmid : { p with depth := p.depth - 1, isStart := false, isEnd := true }.Stands mode pretty depth
      .finish written := by
    refine ⟨h.mode, h.prettyPrint, ?_, ?_, rfl, rfl, h.ioErrorFlag, h.data⟩
    · show p.depth - 1 = _
      rw [hdepth, Nat.cast_add, Nat.cast_one]
      omega
    · show p.isFirstLine = false
      rw [hfirst]
      exact decide_eq_false hlayout
  exact (hmid.jsonNewLine (by simp) (fits_left hfits)).jsonWrite hfits

/-- A value without parts is written after what goes before every value. -/
theorem Stands.jsonAdd (h : p.Stands mode pretty depth layout written) {key : Option CString}
    {text : List Byte} {write : JsonPrinter → JsonPrinter}
    (hwrite : ∀ {p : JsonPrinter} {layout : Layout} {written : List Byte},
      p.Stands mode pretty depth layout written → (written ++ text).length ≤ JSON_BUF_LIMIT →
      (write p).Stands mode pretty depth layout (written ++ text))
    (hfits : (written ++ separator pretty depth layout ++ keyText mode pretty key ++ text).length ≤
      JSON_BUF_LIMIT) :
    (jsonAdd write p key).Stands mode pretty depth layout.next
      (written ++ separator pretty depth layout ++ keyText mode pretty key ++ text) := by
  have hgo : ¬p.ioErrorFlag = true := by simp [h.ioErrorFlag]
  unfold JsonPrinter.jsonAdd
  rw [if_neg hgo]
  exact hwrite (h.jsonStartValue (fits_left hfits)) hfits

theorem Stands.jsonPrintScalar (h : p.Stands mode pretty depth layout written) (s : JsonScalar)
    {key : Option CString}
    (hfits : (written ++ separator pretty depth layout ++ keyText mode pretty key ++
      scalarText mode s).length ≤ JSON_BUF_LIMIT) :
    (jsonPrintInternal (.scalar s) p key).Stands mode pretty depth layout.next
      (written ++ separator pretty depth layout ++ keyText mode pretty key ++
        scalarText mode s) := by
  cases s with
  | string s =>
    rw [jsonPrintInternal]
    exact h.jsonAdd (fun h hfits => h.jsonWriteQuotedString hfits) hfits
  | number n =>
    rw [jsonPrintInternal]
    exact h.jsonAdd (fun h hfits => h.jsonWrite hfits) hfits
  | int64 n =>
    rw [jsonPrintInternal]
    exact h.jsonAdd (fun h hfits => h.jsonWrite hfits) hfits
  | double d =>
    rw [jsonPrintInternal]
    exact h.jsonAdd (fun h hfits => h.jsonWrite hfits) hfits
  | boolean b =>
    rw [jsonPrintInternal]
    exact h.jsonAdd (fun h hfits => h.jsonWrite hfits) hfits
  | null =>
    rw [jsonPrintInternal]
    exact h.jsonAdd (fun h hfits => h.jsonWrite hfits) hfits

/-- The printer writes a value wherever it may stand before one. -/
def Printed (mode : JsonCharsetConversion) (pretty : Bool) (t : Json) : Prop :=
  ∀ ⦃p : JsonPrinter⦄ ⦃depth : ℕ⦄ ⦃layout : Layout⦄ ⦃written : List Byte⦄ (key : Option CString),
    p.Stands mode pretty depth layout written →
    (written ++ separator pretty depth layout ++ keyText mode pretty key ++
      text mode pretty depth t).length ≤ JSON_BUF_LIMIT →
    ∃ layout', (jsonPrintInternal t p key).Stands mode pretty depth layout'
        (written ++ separator pretty depth layout ++ keyText mode pretty key ++
          text mode pretty depth t) ∧
      (layout ≠ .first → layout' = .between)

theorem Stands.jsonPrintObject {properties : List (CString × Json)}
    (ih : ∀ q ∈ properties, Printed mode pretty q.2) :
    ∀ {p : JsonPrinter} {layout : Layout} {written : List Byte},
    p.Stands mode pretty depth layout written → layout ≠ .first →
    (written ++ propertiesText mode pretty depth layout properties).length ≤ JSON_BUF_LIMIT →
    ∃ layout', (jsonPrintObject properties p).Stands mode pretty depth layout'
      (written ++ propertiesText mode pretty depth layout properties) ∧ layout' ≠ .first := by
  induction properties with
  | nil =>
    intro p layout written h hlayout _
    rw [propertiesText, List.append_nil, JsonPrinter.jsonPrintObject]
    exact ⟨layout, h, hlayout⟩
  | cons q properties ihs =>
    obtain ⟨key, value⟩ := q
    intro p layout written h hlayout hfits
    rw [propertiesText] at hfits ⊢
    simp only [← List.append_assoc] at hfits ⊢
    obtain ⟨layout₁, h₁, hbetween⟩ := ih _ List.mem_cons_self (some key) h (fits_left hfits)
    obtain rfl := hbetween hlayout
    rw [JsonPrinter.jsonPrintObject]
    exact ihs (fun q hq => ih q (List.mem_cons_of_mem _ hq)) h₁ (by decide) hfits

theorem Stands.jsonPrintArray {elements : List Json}
    (ih : ∀ t ∈ elements, Printed mode pretty t) :
    ∀ {p : JsonPrinter} {layout : Layout} {written : List Byte},
    p.Stands mode pretty depth layout written → layout ≠ .first →
    (written ++ elementsText mode pretty depth layout elements).length ≤ JSON_BUF_LIMIT →
    ∃ layout', (jsonPrintArray elements p).Stands mode pretty depth layout'
      (written ++ elementsText mode pretty depth layout elements) ∧ layout' ≠ .first := by
  induction elements with
  | nil =>
    intro p layout written h hlayout _
    rw [elementsText, List.append_nil, JsonPrinter.jsonPrintArray]
    exact ⟨layout, h, hlayout⟩
  | cons value elements ihs =>
    intro p layout written h hlayout hfits
    rw [elementsText] at hfits ⊢
    simp only [← List.append_assoc] at hfits ⊢
    have hvalue := ih _ List.mem_cons_self none h
    rw [keyText, List.append_nil] at hvalue
    obtain ⟨layout₁, h₁, hbetween⟩ := hvalue (fits_left hfits)
    obtain rfl := hbetween hlayout
    rw [JsonPrinter.jsonPrintArray]
    exact ihs (fun t ht => ih t (List.mem_cons_of_mem _ ht)) h₁ (by decide) hfits

theorem printed (mode : JsonCharsetConversion) (pretty : Bool) (t : Json) : Printed mode pretty t := by
  induction t using Json.parts_induction with
  | scalar s =>
    intro p depth layout written key h hfits
    rw [text] at hfits ⊢
    refine ⟨layout.next, h.jsonPrintScalar s hfits, fun hlayout => ?_⟩
    cases layout with
    | first => exact absurd rfl hlayout
    | start => rfl
    | between => rfl
    | finish => rfl
  | object properties ih =>
    intro p depth layout written key h hfits
    rw [text] at hfits ⊢
    simp only [← List.append_assoc] at hfits ⊢
    rw [jsonPrintInternal]
    have hopen := h.jsonStart (fits_left (fits_left (fits_left hfits)))
    obtain ⟨layout₁, hparts, hlayout⟩ :=
      hopen.jsonPrintObject ih (by decide) (fits_left (fits_left hfits))
    exact ⟨.between, hparts.jsonEnd hlayout hfits, fun _ => rfl⟩
  | array elements ih =>
    intro p depth layout written key h hfits
    rw [text] at hfits ⊢
    simp only [← List.append_assoc] at hfits ⊢
    rw [jsonPrintInternal]
    have hopen := h.jsonStart (fits_left (fits_left (fits_left hfits)))
    obtain ⟨layout₁, hparts, hlayout⟩ :=
      hopen.jsonPrintArray ih (by decide) (fits_left (fits_left hfits))
    exact ⟨.between, hparts.jsonEnd hlayout hfits, fun _ => rfl⟩

end JsonPrinter

open JsonPrinter

/-- The buffer printer of a mode, with or without pretty printing, on a new buffer. -/
def bufferPrinter (mode : JsonCharsetConversion) (pretty : Bool) : JsonPrinter :=
  let p := makeCustomJsonPrinter mode makeJsonBuffer
  if pretty then p.jsonEnablePrettyPrint else p

theorem jsonPrint_data {mode : JsonCharsetConversion} {pretty : Bool} {t : Json}
    (hfits : (text mode pretty 0 t).length ≤ JSON_BUF_LIMIT) :
    ((bufferPrinter mode pretty).jsonPrint t).customObject.data = text mode pretty 0 t ∧
      ((bufferPrinter mode pretty).jsonPrint t).ioErrorFlag = false := by
  have h : (bufferPrinter mode pretty).Stands mode pretty 0 .first [] := by
    cases pretty <;> exact ⟨rfl, rfl, rfl, rfl, rfl, rfl, rfl, rfl⟩
  obtain ⟨layout, hprinted, -⟩ := printed mode pretty t none h (by simpa [separator, keyText])
  have hdata := hprinted.data
  simp only [separator, keyText, List.append_nil, List.nil_append] at hdata
  exact ⟨hdata, hprinted.ioErrorFlag⟩
end ZoweCommon
