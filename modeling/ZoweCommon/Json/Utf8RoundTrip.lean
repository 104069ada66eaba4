import ZoweCommon.Json.RoundTrip

/-! In UTF-8, parsing keeps of every string what is printable ASCII. -/
namespace ZoweCommon

open CLibrary CString JsonTokenizer JsonPrinter

/-- What the tokenizer reads for a byte that the printer wrote: the text of the escape without its
backslash, and nothing for what is not printable. -/
def rereadByte (b : Byte) : List Byte :=
  if b.toNat < 0x20 then 0x75 :: formatX 4 b.toNat
  else if b.toNat < 0x7F then [b]
  else []

theorem isprint_iff (b : Byte) : isprint b.toInt = true ↔ 0x20 ≤ b.toNat ∧ b.toNat < 0x7F := by
  revert b
  decide

/-- Every digit of a hexadecimal number stands for itself in a string. -/
theorem digitChar_plain {d : ℕ} (h : d < 16) :
    isprint (digitChar d).toInt = true ∧ digitChar d ≠ 0x22 ∧ digitChar d ≠ 0x5C := by
  have hall : ∀ d < 16, isprint (digitChar d).toInt = true ∧ digitChar d ≠ 0x22 ∧
      digitChar d ≠ 0x5C := by decide
  exact hall d h

theorem formatX_plain (width n : ℕ) : ∀ c ∈ formatX width n,
    isprint c.toInt = true ∧ c ≠ 0x22 ∧ c ≠ 0x5C := by
  have hdigits : ∀ d ∈ (if n = 0 then [0] else (Nat.digits 16 n).reverse), d < 16 := by
    intro d hd
    split_ifs at hd
    · rw [List.mem_singleton.mp hd]
      omega
    · exact Nat.digits_lt_base (by omega) (List.mem_reverse.mp hd)
  intro c hc
  unfold formatX List.leftpad at hc
  rcases List.mem_append.mp hc with hc | hc
  · rw [List.eq_of_mem_replicate hc]
    decide
  · obtain ⟨d, hd, rfl⟩ := List.mem_map.mp hc
    exact digitChar_plain (hdigits d hd)

theorem length_formatX {n : ℕ} (h : n < 0x20) : (formatX 4 n).length = 4 := by
  have hdigits : ((if n = 0 then [0] else (Nat.digits 16 n).reverse).map digitChar).length ≤ 4 := by
    split_ifs with hn
    · simp
    · rw [List.length_map, List.length_reverse, Nat.digits_length_le_iff (by omega)]
      omega
  unfold formatX List.leftpad
  rw [List.length_append, List.length_replicate]
  omega

theorem rereadByte_printable {b c : Byte} (hc : c ∈ rereadByte b) : isprint c.toInt = true := by
  unfold rereadByte at hc
  split_ifs at hc with hcontrol hascii
  · rcases List.mem_cons.mp hc with rfl | hc
    · decide
    · exact (formatX_plain 4 _ c hc).1
  · rw [List.mem_singleton.mp hc, isprint_iff]
    omega
  · simp at hc

theorem rereadByte_of_isprint {b : Byte} (h : isprint b.toInt = true) : rereadByte b = [b] := by
  have hrange := (isprint_iff b).mp h
  unfold rereadByte
  rw [if_neg (by omega), if_pos hrange.2]

/-- What printing and parsing makes of a string. -/
def decodeUtf8 (s : CString) : CString where
  bytes := s.bytes.flatMap rereadByte
  noNul := by
    intro b hb
    obtain ⟨c, -, hb⟩ := List.mem_flatMap.mp hb
    have hprint := rereadByte_printable hb
    rintro rfl
    exact absurd hprint (by decide)

/-- Nothing is lost of the strings of printable ASCII characters, and of no others. -/
theorem decodeUtf8_eq_self (s : CString) :
    decodeUtf8 s = s ↔ ∀ b ∈ s.bytes, isprint b.toInt = true := by
  constructor
  · intro h b hb
    rw [← h] at hb
    obtain ⟨c, -, hb⟩ := List.mem_flatMap.mp hb
    exact rereadByte_printable hb
  · intro h
    apply CString.ext
    show s.bytes.flatMap rereadByte = s.bytes
    have hsingle : s.bytes.flatMap rereadByte = s.bytes.flatMap fun b => [b] :=
      List.flatMap_congr fun b hb => rereadByte_of_isprint (h b hb)
    rw [hsingle, List.flatMap_singleton']

/-- A byte of a sequence of more than one. -/
def Beyond (b : Byte) : Prop := 0x80 ≤ b.toNat ∧ b.toNat < 0xFF

/-- The bytes of one character, as far as the printer can tell. -/
inductive Utf8Shape : List Byte → Prop
  | one {c : Byte} (h : c.toNat < 0x80) : Utf8Shape [c]
  | more {c : Byte} {tail : List Byte} (hwidth : (UTF8_GET_NEXT_CHAR c).2 = tail.length + 1)
      (hescape : needsEscape (UTF8_GET_NEXT_CHAR c).1 = false) (hc : Beyond c)
      (htail : ∀ b ∈ tail, Beyond b) : Utf8Shape (c :: tail)

def utf8Bytes (c : Char) : List Byte := (String.utf8EncodeChar c).map UInt8.toBitVec

def ValidUtf8 (text : List Byte) : Prop := ∃ cs : List Char, text = cs.flatMap utf8Bytes

theorem leading_two {c : Byte} (h : 0xC0 ≤ c.toNat ∧ c.toNat < 0xE0) :
    (UTF8_GET_NEXT_CHAR c).2 = 2 ∧ needsEscape (UTF8_GET_NEXT_CHAR c).1 = false := by
  revert c
  decide

theorem leading_three {c : Byte} (h : 0xE0 ≤ c.toNat ∧ c.toNat < 0xF0) :
    (UTF8_GET_NEXT_CHAR c).2 = 3 ∧ needsEscape (UTF8_GET_NEXT_CHAR c).1 = false := by
  revert c
  decide

theorem leading_four {c : Byte} (h : 0xF0 ≤ c.toNat ∧ c.toNat < 0xF8) :
    (UTF8_GET_NEXT_CHAR c).2 = 4 ∧ needsEscape (UTF8_GET_NEXT_CHAR c).1 = false := by
  revert c
  decide

theorem toNat_toBitVec_ofNat {n : ℕ} (h : n < 256) : (UInt8.ofNat n).toBitVec.toNat = n := by
  show n % 256 = n
  omega

theorem utf8Shape (c : Char) : Utf8Shape (utf8Bytes c) := by
  have htail : ∀ n, Beyond (UInt8.ofNat (n % 64 + 128)).toBitVec := by
    intro n
    unfold Beyond
    rw [toNat_toBitVec_ofNat (by omega)]
    omega
  have hnil : ∀ b ∈ ([] : List Byte), Beyond b := List.forall_mem_nil _
  unfold utf8Bytes String.utf8EncodeChar
  dsimp only
  split_ifs with hone htwo hthree
  · apply Utf8Shape.one
    rw [toNat_toBitVec_ofNat (by omega)]
    omega
  · have hlead := @toNat_toBitVec_ofNat (c.val.toNat / 64 % 32 + 192) (by omega)
    have hwidth := leading_two (c := (UInt8.ofNat (c.val.toNat / 64 % 32 + 192)).toBitVec) (by omega)
    have htails := List.forall_mem_cons.mpr ⟨htail c.val.toNat, hnil⟩
    exact .more hwidth.1 hwidth.2 (by unfold Beyond; omega) htails
  · have hlead := @toNat_toBitVec_ofNat (c.val.toNat / 4096 % 16 + 224) (by omega)
    have hwidth := leading_three (c := (UInt8.ofNat (c.val.toNat / 4096 % 16 + 224)).toBitVec) (by omega)
    have htails := List.forall_mem_cons.mpr ⟨htail (c.val.toNat / 64),
      List.forall_mem_cons.mpr ⟨htail c.val.toNat, hnil⟩⟩
    exact .more hwidth.1 hwidth.2 (by unfold Beyond; omega) htails
  · have hlead := @toNat_toBitVec_ofNat (c.val.toNat / 262144 % 8 + 240) (by omega)
    have hwidth := leading_four (c := (UInt8.ofNat (c.val.toNat / 262144 % 8 + 240)).toBitVec) (by omega)
    have htails := List.forall_mem_cons.mpr ⟨htail (c.val.toNat / 4096),
      List.forall_mem_cons.mpr ⟨htail (c.val.toNat / 64),
        List.forall_mem_cons.mpr ⟨htail c.val.toNat, hnil⟩⟩⟩
    exact .more hwidth.1 hwidth.2 (by unfold Beyond; omega) htails

/-! Reading the escapes -/

/-- Characters that stand for themselves. -/
theorem decodes_plain {s : List Byte} (h : ∀ c ∈ s, isprint c.toInt = true ∧ c ≠ 0x22 ∧ c ≠ 0x5C) :
    Decodes s s := by
  induction s with
  | nil => exact .nil
  | cons c s ih =>
    obtain ⟨hprint, hquote, hbackslash⟩ := h c List.mem_cons_self
    exact .plain hprint hquote hbackslash (ih fun d hd => h d (List.mem_cons_of_mem _ hd))

/-- Characters that are not printable. -/
theorem decodes_beyond {s : List Byte} (h : ∀ b ∈ s, Beyond b) : Decodes s [] := by
  have hclass : ∀ b, Beyond b → isprint b.toInt = false ∧ b.toInt ≠ EOF ∧ b ≠ 0x0A := by
    unfold Beyond
    decide
  induction s with
  | nil => exact .nil
  | cons c s ih =>
    obtain ⟨hprint, heof, hline⟩ := hclass c (h c List.mem_cons_self)
    exact .dropped hprint heof hline (ih fun d hd => h d (List.mem_cons_of_mem _ hd))

theorem rereadByte_beyond {s : List Byte} (h : ∀ b ∈ s, Beyond b) : s.flatMap rereadByte = [] := by
  rw [List.flatMap_eq_nil_iff]
  intro b hb
  have hrange := h b hb
  unfold Beyond at hrange
  unfold rereadByte
  rw [if_neg (by omega), if_neg (by omega)]

theorem width_ascii {c : Byte} (h : c.toNat < 0x80) :
    UTF8_GET_NEXT_CHAR c = (BitVec.ofNat 32 c.toNat, 1) := by
  revert c
  decide

/-- The text that stands for an ASCII character. -/
def escapeAscii (c : Byte) : List Byte :=
  if needsEscape (BitVec.ofNat 32 c.toNat) then escapeSequence (BitVec.ofNat 32 c.toNat) else [c]

theorem escapeAscii_control {c : Byte} (h : c.toNat < 0x20) :
    escapeAscii c = 0x5C :: 0x75 :: formatX 4 c.toNat := by
  have hclass : ∀ c : Byte, c.toNat < 0x20 → needsEscape (BitVec.ofNat 32 c.toNat) = true ∧
      BitVec.ofNat 32 c.toNat ≠ UTF8_BACKSLASH ∧ BitVec.ofNat 32 c.toNat ≠ UTF8_QUOTE ∧
      (BitVec.ofNat 32 c.toNat).toNat = c.toNat := by decide
  obtain ⟨hescape, hbackslash, hquote, hnat⟩ := hclass c h
  have hlength := length_formatX h
  unfold escapeAscii escapeSequence
  rw [if_pos hescape, if_neg hbackslash, if_neg hquote, hnat]
  apply List.take_of_length_le
  rw [List.length_append, hlength]
  decide

theorem escapeAscii_plain {c : Byte} (hlo : 0x20 ≤ c.toNat) (h : c.toNat < 0x80) (hquote : c ≠ 0x22)
    (hbackslash : c ≠ 0x5C) : escapeAscii c = [c] := by
  have hclass : ∀ c : Byte, 0x20 ≤ c.toNat → c.toNat < 0x80 → c ≠ 0x22 → c ≠ 0x5C →
      needsEscape (BitVec.ofNat 32 c.toNat) = false := by decide
  unfold escapeAscii
  rw [if_neg (by rw [hclass c hlo h hquote hbackslash]; exact Bool.false_ne_true)]

theorem decodes_escapeAscii {c : Byte} (h : c.toNat < 0x80) :
    Decodes (escapeAscii c) (rereadByte c) := by
  by_cases hcontrol : c.toNat < 0x20
  · rw [escapeAscii_control hcontrol]
    unfold rereadByte
    rw [if_pos hcontrol]
    exact .escaped 0x75 (decodes_plain (formatX_plain 4 c.toNat))
  · by_cases hquote : c = 0x22
    · rw [hquote]
      exact .escaped 0x22 .nil
    · by_cases hbackslash : c = 0x5C
      · rw [hbackslash]
        exact .escaped 0x5C .nil
      · rw [escapeAscii_plain (by omega) h hquote hbackslash]
        unfold rereadByte
        rw [if_neg hcontrol]
        by_cases hdelete : c.toNat < 0x7F
        · have hprint := (isprint_iff c).mpr ⟨by omega, hdelete⟩
          rw [if_pos hdelete]
          exact .plain hprint hquote hbackslash .nil
        · have hc : c = 0x7F := BitVec.eq_of_toNat_eq (by show c.toNat = 127; omega)
          rw [if_neg hdelete, hc]
          exact .dropped (by decide) (by decide) (by decide) .nil

/-- The text of one character is read on its own. -/
theorem escapeUtf8_char {char : List Byte} (h : Utf8Shape char) (rest : List Byte) :
    ∃ body, escapeUtf8 (char ++ rest) = body ++ escapeUtf8 rest ∧
      Decodes body (char.flatMap rereadByte) := by
  cases h with
  | @one c h =>
    refine ⟨escapeAscii c, ?_, ?_⟩
    · rw [List.singleton_append, escapeUtf8, width_ascii h]
      unfold escapeAscii
      split_ifs <;> rfl
    · rw [List.flatMap_singleton]
      exact decodes_escapeAscii h
  | @more c tail hwidth hescape hc htail =>
    have hall : ∀ b ∈ c :: tail, Beyond b := List.forall_mem_cons.mpr ⟨hc, htail⟩
    refine ⟨c :: tail, ?_, ?_⟩
    · have hlength : tail.length + 1 = (c :: tail).length := rfl
      rw [List.cons_append, escapeUtf8, hwidth, if_neg (by rw [hescape]; exact Bool.false_ne_true),
        hlength, ← List.cons_append, List.take_left, List.drop_left]
    · rw [rereadByte_beyond hall]
      exact decodes_beyond hall

theorem decodes_escapeUtf8 {text : List Byte} (h : ValidUtf8 text) :
    Decodes (escapeUtf8 text) (text.flatMap rereadByte) := by
  obtain ⟨cs, rfl⟩ := h
  induction cs with
  | nil =>
    rw [List.flatMap_nil, escapeUtf8]
    exact .nil
  | cons c cs ih =>
    obtain ⟨body, hbody, hdecodes⟩ := escapeUtf8_char (utf8Shape c) (cs.flatMap utf8Bytes)
    rw [List.flatMap_cons, hbody, List.flatMap_append]
    exact hdecodes.append ih

/-! Trees -/

mutual

/-- The string values and the keys of a tree, in order. -/
def Json.strings : Json → List CString
  | .scalar (.string s) => [s]
  | .scalar _ => []
  | .object ps => Json.stringsOfProperties ps
  | .array es => Json.stringsOfElements es

def Json.stringsOfProperties : List (CString × Json) → List CString
  | [] => []
  | (key, value) :: ps => key :: value.strings ++ Json.stringsOfProperties ps

def Json.stringsOfElements : List Json → List CString
  | [] => []
  | value :: es => value.strings ++ Json.stringsOfElements es

end

theorem strings_reread (decode : CString → CString) (t : Json) :
    (t.map (rereading decode)).strings = t.strings.map decode := by
  induction t using Json.parts_induction with
  | scalar s =>
    rw [Json.map]
    cases s <;> rfl
  | object ps ih =>
    rw [Json.map, Json.strings, Json.strings]
    induction ps with
    | nil => rfl
    | cons p ps ihs =>
      obtain ⟨key, value⟩ := p
      have hvalue := ih (key, value) List.mem_cons_self
      have hrest := ihs fun p hp => ih p (List.mem_cons_of_mem _ hp)
      rw [Json.mapProperties, Json.stringsOfProperties, Json.stringsOfProperties, hrest, hvalue]
      simp only [List.map_append, List.map_cons, List.cons_append]
      rfl
  | array es ih =>
    rw [Json.map, Json.strings, Json.strings]
    induction es with
    | nil => rfl
    | cons value es ihs =>
      have hvalue := ih value List.mem_cons_self
      have hrest := ihs fun t ht => ih t (List.mem_cons_of_mem _ ht)
      rw [Json.mapElements, Json.stringsOfElements, Json.stringsOfElements, hrest, hvalue,
        List.map_append]

/-- A string in UTF-8 that the token buffer has room for. -/
def Utf8String (s : CString) : Prop :=
  ValidUtf8 s.bytes ∧ (decodeUtf8 s).bytes.length ≤ MAX_TOKEN

/-- A value that is no double, no integer too large for an `int` and no string that is not in
UTF-8. -/
def Utf8Scalar : JsonScalar → Prop
  | .int64 n => -2 ^ 31 ≤ n.toInt ∧ n.toInt < 2 ^ 31
  | .double _ => False
  | .string s => Utf8String s
  | _ => True

theorem Utf8String.rereads {s : CString} (h : Utf8String s) :
    StringRereads .JSON_MODE_CONVERT_TO_UTF8 decodeUtf8 s := ⟨decodes_escapeUtf8 h.1, h.2⟩

theorem Utf8Scalar.rereads {s : JsonScalar} (h : Utf8Scalar s) :
    ScalarRereads .JSON_MODE_CONVERT_TO_UTF8 decodeUtf8 s := by
  cases s with
  | string s => exact Utf8String.rereads h
  | number n => exact trivial
  | int64 n => exact h
  | double d => exact absurd h not_false
  | boolean b => exact trivial
  | null => exact trivial

/-- Every control character comes back as the letter u and four digits, no DEL and no character
beyond ASCII comes back at all, and nothing else changes in a string. -/
theorem jsonParse_jsonPrint_utf8 {t : Json} (h : t.All Utf8Scalar Utf8String) (pretty : Bool)
    (hfits : (text .JSON_MODE_CONVERT_TO_UTF8 pretty 0 t).length ≤ JSON_BUF_LIMIT) (fuel : ℕ)
    (hfuel : 3 * (text .JSON_MODE_CONVERT_TO_UTF8 pretty 0 t).length + 13 ≤ fuel) :
    ∃ t', jsonParseUnterminatedString fuel
        ((bufferPrinter .JSON_MODE_CONVERT_TO_UTF8 pretty).jsonPrint t).customObject.data =
          .ok (.ok t') ∧
      t'.strings = t.strings.map decodeUtf8 ∧
      (t'.strings = t.strings ↔ ∀ s ∈ t.strings, ∀ b ∈ s.bytes, isprint b.toInt = true) := by
  have hstrings := strings_reread decodeUtf8 t
  refine ⟨t.map (rereading decodeUtf8), ?_, hstrings, ?_⟩
  · exact jsonParse_jsonPrint (h.imp (fun _ => Utf8Scalar.rereads) fun _ => Utf8String.rereads) hfits hfuel
  · have hid : t.strings = t.strings.map id := (List.map_id t.strings).symm
    rw [hstrings]
    conv_lhs => rw [hid, List.map_map]
    rw [List.map_inj_left]
    exact forall₂_congr fun s _ => decodeUtf8_eq_self s

/-- An array with the string of one control character, which comes back as a longer string. -/
theorem jsonParse_jsonPrint_utf8_control :
    ∃ t', jsonParseUnterminatedString 200
        ((bufferPrinter .JSON_MODE_CONVERT_TO_UTF8 true).jsonPrint
          (.array [.scalar (.string (ofBytes [0x01]))])).customObject.data = .ok (.ok t') ∧
      t'.strings = [ofBytes (ascii "u0001")] := by
  have hvalid : ValidUtf8 [0x01] := ⟨['\x01'], by decide⟩
  have hscalar : Utf8Scalar (.string (ofBytes [0x01])) := ⟨hvalid, by decide +kernel⟩
  have hall : (Json.array [.scalar (.string (ofBytes [0x01]))]).All Utf8Scalar Utf8String :=
    .array (by simpa using .scalar hscalar)
  obtain ⟨t', hrun, hstrings, -⟩ := jsonParse_jsonPrint_utf8 hall true (by decide +kernel) 200
    (by decide +kernel)
  refine ⟨t', hrun, ?_⟩
  rw [hstrings]
  decide +kernel

/-- A control character, a double and an integer too large for an `int` are not read back. -/
theorem not_jsonParse_jsonPrint_utf8 :
    (∀ fuel ≥ 100, jsonParseUnterminatedString fuel
      ((bufferPrinter .JSON_MODE_CONVERT_TO_UTF8 false).jsonPrint
        (.scalar (.string (ofBytes [0x01])))).customObject.data =
          .ok (.ok (.scalar (.string (ofBytes (ascii "u0001")))))) ∧
    ofBytes [0x01] ≠ ofBytes (ascii "u0001") ∧ ValidUtf8 (ofBytes [0x01]).bytes ∧
    ((jsonParseUnterminatedString 100
      ((bufferPrinter .JSON_MODE_CONVERT_TO_UTF8 false).jsonPrint
        (.scalar (.double 0x3FF8000000000000))).customObject.data) matches .ok (.error _)) ∧
    ((jsonParseUnterminatedString 100
      ((bufferPrinter .JSON_MODE_CONVERT_TO_UTF8 false).jsonPrint
        (.scalar (.int64 0x80000000))).customObject.data) matches .error .undefinedBehaviour) := by
  have hvalid : ValidUtf8 [0x01] := ⟨['\x01'], by decide⟩
  have hrereads : ScalarRereads .JSON_MODE_CONVERT_TO_UTF8 decodeUtf8 (.string (ofBytes [0x01])) :=
    ⟨decodes_escapeUtf8 hvalid, by decide +kernel⟩
  have hscalar : (rereading decodeUtf8).scalar (.string (ofBytes [0x01])) =
      .string (ofBytes (ascii "u0001")) := by decide +kernel
  refine ⟨fun fuel hfuel => ?_, by decide, hvalid, by decide +kernel, by decide +kernel⟩
  have hlength : 3 * (text .JSON_MODE_CONVERT_TO_UTF8 false 0
      (.scalar (.string (ofBytes [0x01])))).length + 13 ≤ 100 := by decide +kernel
  rw [jsonParse_jsonPrint (.scalar hrereads) (by decide +kernel) (by omega), Json.map,
    hscalar]

end ZoweCommon
